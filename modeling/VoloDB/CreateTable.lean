import VoloDB.ColumnsValue
import VoloDB.Texts
import VoloDB.TupleReach

/-!
# The text of `CREATE TABLE`

`execute(CreateStoreOperation*)` turns an operation into one text: a line
per column, and clauses for the primary key, the prune index and the
partitioning. The names of the store and of the columns are put into it as
they are.

Three questions are asked of the text. Which width does a column of variable
length get, and does NDB then store it the way the client writes it
(`widthsAgree_iff`)? Which columns are in the query that is run, and which in
its key clauses (`createsAsFlagged_iff`)? And can two operations have the same
text (`createTableText_inj`)? They can, as nothing is quoted; but not without a
line break in a name.
-/

namespace VoloDB

open Interaction NDBMessageExecutor

/-! ## The width of a column -/

/-- **How NDB stores a value of variable length**: the code of the type and
the number of bytes that hold the length. -/
structure StorageFormat where
  typeCode : Nat
  prefixSize : Nat
deriving DecidableEq

/-- The storage of a column of variable length, by its declared width in
bytes: `Varchar` and `Varbinary` have one byte for the length,
`Longvarchar` and `Longvarbinary` two. -/
def ndbStorage (type : ColumnType) (width : Nat) : Option StorageFormat :=
  match type with
  | .varchar => some (if width ≤ 255 then ⟨15, 1⟩ else ⟨23, 2⟩)
  | .varbinary => some (if width ≤ 255 then ⟨17, 1⟩ else ⟨24, 2⟩)
  | _ => none

/-- **The storage the client assumes**: the code of the wire type, and the
bytes `_prependLength` is told to use. -/
def codecFormat (type : ColumnType) : StorageFormat :=
  ⟨type.toNat, ColumnsValueBuilder.extendedAttibuteLengthSizeForPrepend⟩

namespace ColumnInfo

/-- The column has a variable length. -/
def IsVariable (column : ColumnInfo) : Prop :=
  column.type = .varchar ∨ column.type = .varbinary

/-- The text declares the column with a width, written as `digits`. -/
def Declares (column : ColumnInfo) (digits : Bytes) : Prop :=
  columnText column
    = column.name ++ ascii " " ++ getTypeName column.type
      ++ (ascii "(" ++ digits ++ ascii ")") ++ ascii " NOT NULL, \n"

end ColumnInfo

/-- **Every declared width suits the client**: NDB stores the columns of
variable length, as they are declared, the way the client writes and reads
them. -/
def WidthsAgree (operation : CreateStoreOperation) : Prop :=
  ∀ column ∈ operation.column, column.IsVariable →
    ∀ length digits, column.length = some length → column.Declares digits →
      ndbStorage column.type (decimal digits) = some (codecFormat column.type)

/-- The width that is written for a length. -/
def writtenWidth (length : Int32) : Nat := if length < 255 then 256 else length.toInt.toNat

/-- A length that is not raised is not negative. -/
theorem le_toInt_of_not_lt {length : Int32} (h : ¬ length < 255) : 255 ≤ length.toInt := by
  rw [Int32.lt_iff_toInt_lt] at h
  exact Int.not_lt.mp h

/-- What is written between the parentheses of a column of variable
length. -/
theorem widthText_eq {column : ColumnInfo} {length : Int32} (hvar : column.IsVariable)
    (h : column.length = some length) :
    widthText column = ascii "(" ++ ascii (toString (writtenWidth length)) ++ ascii ")" := by
  have hwidth : toString (if length < 255 then 256 else length.toInt)
      = toString (writtenWidth length) := by
    unfold writtenWidth
    by_cases hlt : length < 255
    · rw [if_pos hlt, if_pos hlt]
      rfl
    · have hnonneg : (length.toInt.toNat : Int) = length.toInt :=
        Int.toNat_of_nonneg (by have := le_toInt_of_not_lt hlt; omega)
      rw [if_neg hlt, if_neg hlt, ← hnonneg]
      rfl
  unfold widthText
  rcases hvar with htype | htype
  · rw [h, htype, ← hwidth]
  · rw [h, htype, ← hwidth]

/-- The width a column of variable length is declared with. -/
theorem declares_iff {column : ColumnInfo} {length : Int32} {digits : Bytes}
    (hvar : column.IsVariable) (h : column.length = some length) :
    column.Declares digits ↔ digits = ascii (toString (writtenWidth length)) := by
  unfold ColumnInfo.Declares columnText
  rw [widthText_eq hvar h]
  simp only [List.append_cancel_right_eq, List.append_cancel_left_eq]
  exact eq_comm

/-- Only the length 255 is written as a width of one byte. -/
theorem writtenWidth_le_iff {length : Int32} : writtenWidth length ≤ 255 ↔ length = 255 := by
  unfold writtenWidth
  by_cases hlt : length < 255
  · rw [if_pos hlt]
    refine iff_of_false (by decide) ?_
    rintro rfl
    exact absurd hlt (by decide)
  · have hle := le_toInt_of_not_lt hlt
    rw [if_neg hlt]
    constructor
    · intro h
      refine Int32.toInt_inj.mp ?_
      show length.toInt = 255
      omega
    · rintro rfl
      decide

/-- The width that is written suits the client unless the length is 255. -/
theorem ndbStorage_writtenWidth_iff {column : ColumnInfo} {length : Int32}
    (hvar : column.IsVariable) :
    ndbStorage column.type (writtenWidth length) = some (codecFormat column.type)
      ↔ length ≠ 255 := by
  rw [Ne, ← writtenWidth_le_iff]
  unfold ndbStorage
  by_cases h : writtenWidth length ≤ 255
  · rw [if_pos h, if_pos h]
    refine iff_of_false ?_ (not_not.mpr h)
    rcases hvar with htype | htype <;> rw [htype] <;> decide
  · rw [if_neg h, if_neg h]
    refine iff_of_true ?_ h
    rcases hvar with htype | htype <;> rw [htype] <;> rfl

/-- **The widths suit the client exactly when no column of variable length
is given the length 255**, which is not raised but still stored with one
byte for the length. -/
theorem widthsAgree_iff (operation : CreateStoreOperation) :
    WidthsAgree operation
      ↔ ∀ column ∈ operation.column, column.IsVariable → column.length ≠ some 255 := by
  unfold WidthsAgree
  refine forall₂_congr fun column hcolumn => forall_congr' fun hvar => ?_
  constructor
  · intro h hlength
    have hstorage := h 255 _ hlength ((declares_iff hvar hlength).mpr rfl)
    rw [decimal_ascii_toString] at hstorage
    exact (ndbStorage_writtenWidth_iff hvar).mp hstorage rfl
  · rintro hne length digits hlength hdigits
    rw [(declares_iff hvar hlength).mp hdigits, decimal_ascii_toString]
    exact (ndbStorage_writtenWidth_iff hvar).mpr (fun heq => hne (heq ▸ hlength))

/-- **A `VARCHAR` of length 255.** -/
theorem not_widthsAgree_varchar :
    ¬ WidthsAgree ⟨⟨ascii "t"⟩, [⟨ascii "v", .varchar, some true, some true, some 255⟩]⟩ := by
  intro h
  have hstorage := h _ List.mem_cons_self (Or.inl rfl) 255 (ascii "255") rfl rfl
  exact absurd hstorage (by decide)

/-! ## The type of a column -/

/-- The type of a column, with its width. -/
def typeText (column : ColumnInfo) : Bytes := getTypeName column.type ++ widthText column

/-- A width is solid: a number in parentheses, if anything. -/
theorem solid_widthText (column : ColumnInfo) : Solid (widthText column) := by
  have hnumber : ∀ i : Int, Solid (ascii "(" ++ ascii (toString i) ++ ascii ")") := by
    intro i
    exact ((show Solid (ascii "(") by decide).append (solid_ascii_toString_int i)).append
      (show Solid (ascii ")") by decide)
  have hnil : Solid [] := fun x hx => absurd hx List.not_mem_nil
  unfold widthText
  cases column.length with
  | none => exact hnil
  | some length =>
    cases column.type with
    | char => exact hnumber _
    | varchar => exact hnumber _
    | varbinary => exact hnumber _
    | _ => exact hnil

/-- A type is written without control characters and commas. -/
theorem notMem_typeText (column : ColumnInfo) {x : UInt8} (hx : x.toNat < 32 ∨ x = 44) :
    x ∉ typeText column := by
  have htype : (getTypeName column.type).all (fun y => 32 ≤ y.toNat ∧ y ≠ 44) = true := by
    cases column.type <;> rfl
  unfold typeText
  rw [List.mem_append, not_or]
  constructor
  · intro hmem
    obtain ⟨hle, hcomma⟩ := of_decide_eq_true (List.all_eq_true.mp htype x hmem)
    exact hx.elim (fun hlt => absurd hle (Nat.not_le.mpr hlt)) hcomma
  · intro hmem
    obtain ⟨hlt, hcomma⟩ := solid_widthText column x hmem
    exact hx.elim (fun h => absurd hlt (Nat.not_lt.mpr (Nat.le_of_lt h))) hcomma

theorem typeText_ne_nil (column : ColumnInfo) : typeText column ≠ [] := by
  refine fun h => absurd (List.append_eq_nil_iff.mp h).1 ?_
  cases column.type <;> decide

/-- The text of a column is its name and its type. -/
theorem columnText_eq (column : ColumnInfo) :
    columnText column = column.name ++ ascii " " ++ typeText column ++ ascii " NOT NULL, \n" := by
  unfold columnText typeText
  rw [← List.append_assoc]

/-! ## The columns and the key clauses -/

/-- **The text defines the columns**, each once and in their order, by its name
and some type on a line of its own, with nothing else that a comma would
part from it. -/
inductive DefinesColumns : List ColumnInfo → Bytes → Prop
  | nil : DefinesColumns [] []
  | cons {columns : List ColumnInfo} {rest : Bytes} (column : ColumnInfo) (type : Bytes)
      (hne : type ≠ []) (hline : (10 : UInt8) ∉ type) (hcomma : (44 : UInt8) ∉ type)
      (hrest : DefinesColumns columns rest) :
    DefinesColumns (column :: columns)
      (column.name ++ ascii " " ++ type ++ ascii " NOT NULL, \n" ++ rest)

/-- **A list of names**, in parentheses and separated by commas. -/
def nameList (names : List Bytes) : Bytes :=
  ascii "(" ++ List.intercalate (ascii ",") names ++ ascii ")"

/-- The names of the columns whose primary key flag is true. -/
def truePrimaryKeyNames (operation : CreateStoreOperation) : List Bytes :=
  (operation.column.filter (·.primaryKey == some true)).map (·.name)

/-- The names of the columns whose distribution key flag is true. -/
def trueDistributionKeyNames (operation : CreateStoreOperation) : List Bytes :=
  (operation.column.filter (·.distributionKey == some true)).map (·.name)

/-- Some column is flagged as primary key, and some as distribution key. -/
def Flagged (operation : CreateStoreOperation) : Prop :=
  (∃ column ∈ operation.column, column.primaryKey = some true)
    ∧ ∃ column ∈ operation.column, column.distributionKey = some true

/-- **The query creates the table of the operation**: it defines the columns,
and lists the flagged ones in the key clauses. -/
def CreatesTable (operation : CreateStoreOperation) (query : Bytes) : Prop :=
  ∃ definitions, DefinesColumns operation.column definitions
    ∧ query = ascii "CREATE TABLE " ++ operation.storeInfo.storeName ++ ascii "(\n" ++ definitions
      ++ ascii "PRIMARY KEY " ++ nameList (truePrimaryKeyNames operation)
      ++ ascii ",\nINDEX VOLODB_PRUNE_INDEX USING BTREE "
      ++ nameList (trueDistributionKeyNames operation)
      ++ ascii ")\nENGINE=NDB\n"
      ++ ascii "PARTITION BY KEY " ++ nameList (trueDistributionKeyNames operation)

/-- **A table is created as it is flagged**: with keys of both kinds a query
is run, which creates the table; otherwise an error is returned without a
call. -/
def CreatesAsFlagged (operation : CreateStoreOperation) : Prop :=
  (Flagged operation →
    ∀ transactionID, (executeCreateStore operation transactionID).Ensures (fun trace _ =>
      ∃ query answer, trace = [⟨.query query, answer⟩] ∧ CreatesTable operation query))
  ∧ (¬ Flagged operation →
    ∀ transactionID, (executeCreateStore operation transactionID).Ensures (fun trace o =>
      trace = [] ∧ ∃ result, o = .ok result ∧ result.errorCode ≠ none))

/-- No flag of the columns is there to say no. -/
def NoFalseFlag (operation : CreateStoreOperation) : Prop :=
  ∀ column ∈ operation.column,
    column.primaryKey ≠ some false ∧ column.distributionKey ≠ some false

/-- No name of the operation has a NUL. -/
def NoNul (operation : CreateStoreOperation) : Prop :=
  (0 : UInt8) ∉ operation.storeInfo.storeName
    ∧ ∀ column ∈ operation.column, (0 : UInt8) ∉ column.name

/-! ### The text as the code makes it -/

/-- The statement, with the names in its key clauses. -/
def statementText (operation : CreateStoreOperation) (primary distribution : List Bytes) :
    Bytes :=
  ascii "CREATE TABLE " ++ operation.storeInfo.storeName ++ ascii "(\n"
    ++ operation.column.flatMap columnText
    ++ ascii "PRIMARY KEY (" ++ namesText primary
    ++ ascii ",\nINDEX VOLODB_PRUNE_INDEX USING BTREE (" ++ namesText distribution
    ++ ascii ")\nENGINE=NDB\n"
    ++ ascii "PARTITION BY KEY (" ++ namesText distribution

/-- The columns are defined by their lines. -/
theorem definesColumns_flatMap (columns : List ColumnInfo) :
    DefinesColumns columns (columns.flatMap columnText) := by
  induction columns with
  | nil => exact .nil
  | cons column columns ih =>
    rw [List.flatMap_cons, columnText_eq]
    exact .cons column _ (typeText_ne_nil column) (notMem_typeText column (by decide))
      (notMem_typeText column (by decide)) ih

/-- **The definitions of columns can be told** from what follows them. -/
theorem DefinesColumns.append_inj {columns : List ColumnInfo} {definitions definitions' : Bytes}
    (h : DefinesColumns columns definitions) (h' : DefinesColumns columns definitions')
    {rest rest' : Bytes} (heq : definitions ++ rest = definitions' ++ rest') :
    definitions = definitions' ∧ rest = rest' := by
  induction h generalizing definitions' with
  | nil =>
    cases h'
    exact ⟨rfl, heq⟩
  | @cons columns tail column type hne hline hcomma hrest ih =>
    cases h' with
    | @cons _ tail' _ type' hne' hline' hcomma' hrest' =>
      -- the type ends where the line does
      have hnot : ascii " NOT NULL, \n" = ascii " NOT NULL, " ++ [10] := rfl
      have hlineEnd : ∀ {t : Bytes},
          (10 : UInt8) ∉ t → (10 : UInt8) ∉ t ++ ascii " NOT NULL, " := by
        intro t ht
        rw [List.mem_append, not_or]
        exact ⟨ht, by decide⟩
      simp only [List.append_assoc, hnot] at heq
      have hcancel := List.append_cancel_left (List.append_cancel_left heq)
      rw [← List.append_assoc type, ← List.append_assoc type'] at hcancel
      obtain ⟨htype, htails⟩ := append_cons_inj (hlineEnd hline) (hlineEnd hline') hcancel
      obtain ⟨rfl, hrests⟩ := ih hrest' htails
      exact ⟨by rw [List.append_cancel_right htype], hrests⟩

/-- The names of a clause, as the code lists them. -/
theorem nameList_eq {names : List Bytes} (h : names ≠ []) :
    nameList names = ascii "(" ++ namesText names := by
  have hnames : List.intercalate (ascii ",") names ++ ascii ")" = namesText names := by
    induction names with
    | nil => exact absurd rfl h
    | cons name names ih =>
      cases names with
      | nil => rw [List.intercalate_singleton]; rfl
      | cons name' names =>
        rw [List.intercalate_cons_cons, List.append_assoc, ih (List.cons_ne_nil _ _)]
        rfl
  unfold nameList
  rw [List.append_assoc, hnames]

/-- Where there are flagged columns, their table is created by one text. -/
theorem createsTable_iff {operation : CreateStoreOperation} (h : Flagged operation)
    {primary distribution : List Bytes} :
    CreatesTable operation (statementText operation primary distribution)
      ↔ statementText operation primary distribution
        = statementText operation (truePrimaryKeyNames operation)
          (trueDistributionKeyNames operation) := by
  have hnames : truePrimaryKeyNames operation ≠ [] ∧ trueDistributionKeyNames operation ≠ [] := by
    obtain ⟨⟨column, hcolumn, hflag⟩, column', hcolumn', hflag'⟩ := h
    constructor
    · exact List.ne_nil_of_mem
        (List.mem_map_of_mem (List.mem_filter.mpr ⟨hcolumn, by simp [hflag]⟩))
    · exact List.ne_nil_of_mem
        (List.mem_map_of_mem (List.mem_filter.mpr ⟨hcolumn', by simp [hflag']⟩))
  have hprimary : ascii "PRIMARY KEY (" = ascii "PRIMARY KEY " ++ ascii "(" := rfl
  have hindex : ascii ",\nINDEX VOLODB_PRUNE_INDEX USING BTREE ("
      = ascii ",\nINDEX VOLODB_PRUNE_INDEX USING BTREE " ++ ascii "(" := rfl
  have hpartition : ascii "PARTITION BY KEY (" = ascii "PARTITION BY KEY " ++ ascii "(" := rfl
  unfold CreatesTable
  rw [nameList_eq hnames.1, nameList_eq hnames.2]
  unfold statementText
  rw [hprimary, hindex, hpartition]
  simp only [List.append_assoc]
  constructor
  · rintro ⟨definitions, hdefinitions, heq⟩
    have hcancel := List.append_cancel_left (List.append_cancel_left (List.append_cancel_left heq))
    obtain ⟨rfl, hrest⟩ := (definesColumns_flatMap _).append_inj hdefinitions hcancel
    exact heq
  · exact fun heq => ⟨_, definesColumns_flatMap _, heq⟩

/-- Each name in a clause is followed by one character. -/
theorem length_namesText_cons (name : Bytes) (names : List Bytes) :
    (namesText (name :: names)).length = name.length + 1 + (namesText names).length := by
  cases names with
  | nil =>
    show (name ++ ascii ")").length = _
    rw [List.length_append]
    rfl
  | cons name' names =>
    show (name ++ ascii "," ++ namesText (name' :: names)).length = _
    rw [List.length_append, List.length_append]
    rfl

/-- **Leaving out names makes a clause shorter**, by a character each at
least. -/
theorem length_namesText_of_sublist {names names' : List Bytes} (h : names.Sublist names') :
    (namesText names).length + names'.length ≤ (namesText names').length + names.length := by
  induction h with
  | slnil => exact Nat.le_refl _
  | cons name _ ih =>
    rw [length_namesText_cons, List.length_cons]
    omega
  | cons_cons name _ ih =>
    rw [length_namesText_cons, length_namesText_cons, List.length_cons, List.length_cons]
    omega

/-- The statement is as long as its clauses make it. -/
theorem length_statementText (operation : CreateStoreOperation)
    (primary distribution : List Bytes) :
    (statementText operation primary distribution).length
      = (statementText operation [] []).length + (namesText primary).length
        + 2 * (namesText distribution).length := by
  unfold statementText
  simp only [List.length_append, namesText, List.length_nil]
  omega

/-- **The statement tells whether names are missing** from its clauses. -/
theorem statementText_sublist_inj {operation : CreateStoreOperation}
    {primary primary' distribution distribution' : List Bytes}
    (hprimary : primary.Sublist primary') (hdistribution : distribution.Sublist distribution')
    (h : statementText operation primary' distribution'
      = statementText operation primary distribution) :
    primary = primary' ∧ distribution = distribution' := by
  have hlength := congrArg List.length h
  rw [length_statementText _ primary', length_statementText _ primary] at hlength
  have hp := length_namesText_of_sublist hprimary
  have hd := length_namesText_of_sublist hdistribution
  have hp' := hprimary.length_le
  have hd' := hdistribution.length_le
  exact ⟨hprimary.eq_of_length (by omega), hdistribution.eq_of_length (by omega)⟩

/-! Both clauses take the columns that carry a flag, whatever it says. -/

section Flags

variable (flag : ColumnInfo → Option Bool) (columns : List ColumnInfo)

/-- The columns flagged with true are among those that carry the flag. -/
theorem flagged_sublist :
    ((columns.filter (flag · == some true)).map (·.name)).Sublist
      ((columns.filter (fun column => (flag column).isSome)).map (·.name)) := by
  refine List.Sublist.map _ (List.monotone_filter_right columns (fun column h => ?_))
  rw [beq_iff_eq.mp h]
  rfl

/-- No name is missing exactly when no flag says no. -/
theorem flagged_eq_iff :
    (columns.filter (flag · == some true)).map (·.name)
        = (columns.filter (fun column => (flag column).isSome)).map (·.name)
      ↔ ∀ column ∈ columns, flag column ≠ some false := by
  constructor
  · intro h column hcolumn hfalse
    have hlength := congrArg List.length h
    rw [List.length_map, List.length_map] at hlength
    have hsublist : (columns.filter (flag · == some true)).Sublist
        (columns.filter (fun column => (flag column).isSome)) :=
      List.monotone_filter_right columns (fun column h => by rw [beq_iff_eq.mp h]; rfl)
    have hmem : column ∈ columns.filter (fun column => (flag column).isSome) :=
      List.mem_filter.mpr ⟨hcolumn, by rw [hfalse]; rfl⟩
    rw [← hsublist.eq_of_length hlength, List.mem_filter, hfalse] at hmem
    exact absurd hmem.2 (by decide)
  · intro h
    refine congrArg _ (List.filter_congr fun column hcolumn => ?_)
    have hne := h column hcolumn
    match hflag : flag column with
    | none => rfl
    | some true => rfl
    | some false => exact absurd hflag hne

/-- No column is named exactly when none carries the flag. -/
theorem carried_eq_nil_iff :
    (columns.filter (fun column => (flag column).isSome)).map (·.name) = []
      ↔ ∀ column ∈ columns, flag column = none := by
  rw [List.map_eq_nil_iff, List.filter_eq_nil_iff]
  simp only [Option.not_isSome_iff_eq_none]

/-- A flag that is carried, and never says no, says yes somewhere. -/
theorem exists_flagged
    (hcarried : (columns.filter (fun column => (flag column).isSome)).map (·.name) ≠ [])
    (h : ∀ column ∈ columns, flag column ≠ some false) :
    ∃ column ∈ columns, flag column = some true := by
  rw [Ne, carried_eq_nil_iff] at hcarried
  push Not at hcarried
  obtain ⟨column, hcolumn, hsome⟩ := hcarried
  refine ⟨column, hcolumn, ?_⟩
  have hfalse := h column hcolumn
  match hflag : flag column with
  | none => exact absurd hflag hsome
  | some true => rfl
  | some false => exact absurd hflag hfalse

end Flags

/-- **Without a flag of each kind** an error is returned at once. -/
theorem executeCreateStore_of_missing {operation : CreateStoreOperation}
    (h : primaryKeyNames operation = [] ∨ distributionKeyNames operation = [])
    (transactionID : Bytes) :
    (executeCreateStore operation transactionID).Ensures (fun trace o =>
      trace = [] ∧ ∃ result, o = .ok result ∧ result.errorCode ≠ none) := by
  unfold executeCreateStore
  by_cases hprimary : primaryKeyNames operation = []
  · rw [if_pos hprimary]
    exact Prog.ensures_pure.mpr ⟨rfl, _, rfl, Option.some_ne_none 0⟩
  · rw [if_neg hprimary, if_pos (h.resolve_left hprimary)]
    exact Prog.ensures_pure.mpr ⟨rfl, _, rfl, Option.some_ne_none 0⟩

/-- **With a flag of each kind** the query is run. -/
theorem executeCreateStore_of_carried {operation : CreateStoreOperation}
    (hprimary : primaryKeyNames operation ≠ [])
    (hdistribution : distributionKeyNames operation ≠ []) (transactionID : Bytes) :
    (executeCreateStore operation transactionID).Ensures (fun trace _ =>
      ∃ answer, trace = [⟨.query (cStr (createTableText operation)), answer⟩]) := by
  unfold executeCreateStore
  rw [if_neg hprimary, if_neg hdistribution]
  unfold runQuery
  rw [Prog.perform_bind, Prog.ensures_call]
  intro error
  cases error with
  | none => exact Prog.ensures_pure.mpr ⟨none, rfl⟩
  | some error => exact Prog.ensures_pure.mpr ⟨some error, rfl⟩

/-- Flagged columns carry their flags. -/
theorem Flagged.carried {operation : CreateStoreOperation} (h : Flagged operation) :
    primaryKeyNames operation ≠ [] ∧ distributionKeyNames operation ≠ [] := by
  obtain ⟨⟨column, hcolumn, hflag⟩, column', hcolumn', hflag'⟩ := h
  refine ⟨fun hnil => ?_, fun hnil => ?_⟩
  · rw [(carried_eq_nil_iff (·.primaryKey) operation.column).mp hnil column hcolumn] at hflag
    exact absurd hflag (by simp)
  · rw [(carried_eq_nil_iff (·.distributionKey) operation.column).mp hnil column' hcolumn']
      at hflag'
    exact absurd hflag' (by simp)

/-- **The text is as flagged exactly when no flag says no.** -/
theorem createTableText_eq_iff (operation : CreateStoreOperation) :
    createTableText operation = statementText operation (truePrimaryKeyNames operation)
        (trueDistributionKeyNames operation) ↔ NoFalseFlag operation := by
  have hprimary := flagged_eq_iff (·.primaryKey) operation.column
  have hdistribution := flagged_eq_iff (·.distributionKey) operation.column
  constructor
  · intro h
    obtain ⟨hp, hd⟩ := statementText_sublist_inj
      (flagged_sublist (·.primaryKey) operation.column)
      (flagged_sublist (·.distributionKey) operation.column) h
    exact fun column hcolumn =>
      ⟨hprimary.mp hp column hcolumn, hdistribution.mp hd column hcolumn⟩
  · intro h
    have hp := hprimary.mpr (fun column hcolumn => (h column hcolumn).1)
    have hd := hdistribution.mpr (fun column hcolumn => (h column hcolumn).2)
    show statementText operation (primaryKeyNames operation) (distributionKeyNames operation) = _
    unfold truePrimaryKeyNames trueDistributionKeyNames
    rw [hp, hd]
    rfl

/-! ### What is run of the text -/

/-- A text without a NUL is handed over as a whole. -/
theorem cStr_eq_self {text : Bytes} (h : (0 : UInt8) ∉ text) : cStr text = text := by
  refine List.takeWhile_eq_self_iff.mpr (fun x hx => decide_eq_true ?_)
  rintro rfl
  exact h hx

/-- No NUL is ever handed over. -/
theorem nul_notMem_cStr (text : Bytes) : (0 : UInt8) ∉ cStr text := by
  intro hmem
  have hkept := List.mem_takeWhile_imp (show 0 ∈ text.takeWhile (fun x => x ≠ 0) from hmem)
  exact of_decide_eq_true hkept rfl

/-- No control character comes from names that have none. -/
theorem control_notMem_namesText {x : UInt8} (hx : x.toNat < 32) {names : List Bytes}
    (h : ∀ name ∈ names, x ∉ name) : x ∉ namesText names := by
  have hcomma : x ∉ ascii "," := fun hmem => by
    rw [List.mem_singleton.mp hmem] at hx
    exact absurd hx (by decide)
  have hparenthesis : x ∉ ascii ")" := fun hmem => by
    rw [List.mem_singleton.mp hmem] at hx
    exact absurd hx (by decide)
  induction names with
  | nil => exact List.not_mem_nil
  | cons name names ih =>
    obtain ⟨hname, hnames⟩ := List.forall_mem_cons.mp h
    cases names with
    | nil =>
      show x ∉ name ++ ascii ")"
      rw [List.mem_append, not_or]
      exact ⟨hname, hparenthesis⟩
    | cons name' names =>
      show x ∉ name ++ ascii "," ++ namesText (name' :: names)
      rw [List.mem_append, List.mem_append, not_or, not_or]
      exact ⟨⟨hname, hcomma⟩, ih hnames⟩

/-- The names in a key clause are names of columns. -/
theorem notMem_of_mem_carried {columns : List ColumnInfo} {x : UInt8}
    (h : ∀ column ∈ columns, x ∉ column.name) (flag : ColumnInfo → Option Bool) :
    ∀ name ∈ (columns.filter (fun column => (flag column).isSome)).map (·.name), x ∉ name := by
  intro name hname
  obtain ⟨column, hcolumn, rfl⟩ := List.mem_map.mp hname
  exact h column (List.mem_filter.mp hcolumn).1

/-- No NUL comes from names that have none. -/
theorem NoNul.notMem_createTableText {operation : CreateStoreOperation} (h : NoNul operation) :
    (0 : UInt8) ∉ createTableText operation := by
  have hcolumns : (0 : UInt8) ∉ operation.column.flatMap columnText := by
    intro hmem
    obtain ⟨column, hcolumn, hmem⟩ := List.mem_flatMap.mp hmem
    rw [columnText_eq] at hmem
    simp only [List.mem_append] at hmem
    rcases hmem with ((hmem | hmem) | hmem) | hmem
    · exact h.2 column hcolumn hmem
    · exact absurd hmem (by decide)
    · exact notMem_typeText column (by decide) hmem
    · exact absurd hmem (by decide)
  have hclause : ∀ flag : ColumnInfo → Option Bool, (0 : UInt8) ∉ namesText
      ((operation.column.filter (fun column => (flag column).isSome)).map (·.name)) :=
    fun flag => control_notMem_namesText (by decide) (notMem_of_mem_carried h.2 flag)
  unfold createTableText
  simp only [List.mem_append, not_or]
  exact ⟨⟨⟨⟨⟨⟨⟨⟨⟨⟨by decide, h.1⟩, by decide⟩, hcolumns⟩, by decide⟩, hclause (·.primaryKey)⟩,
    by decide⟩, hclause (·.distributionKey)⟩, by decide⟩, by decide⟩, hclause (·.distributionKey)⟩

/-- What defines columns has their names in it. -/
theorem DefinesColumns.notMem_name {columns : List ColumnInfo} {definitions : Bytes}
    (h : DefinesColumns columns definitions) {x : UInt8} (hx : x ∉ definitions) :
    ∀ column ∈ columns, x ∉ column.name := by
  induction h with
  | nil => exact fun _ hmem => absurd hmem List.not_mem_nil
  | cons column type hne hline hcomma hrest ih =>
    simp only [List.mem_append, not_or] at hx
    exact List.forall_mem_cons.mpr ⟨hx.1.1.1.1, ih hx.2⟩

/-- **A query creates the table only if there is no NUL in its names.** -/
theorem CreatesTable.noNul {operation : CreateStoreOperation} {text : Bytes}
    (h : CreatesTable operation (cStr text)) : NoNul operation := by
  obtain ⟨definitions, hdefinitions, hquery⟩ := h
  have hnul := nul_notMem_cStr text
  rw [hquery] at hnul
  simp only [List.mem_append, not_or] at hnul
  obtain ⟨⟨⟨⟨⟨⟨⟨⟨⟨⟨-, hstore⟩, -⟩, hcolumns⟩, -⟩, -⟩, -⟩, -⟩, -⟩, -⟩, -⟩ := hnul
  exact ⟨hstore, hdefinitions.notMem_name hcolumns⟩

/-- Where every flag says yes, a column carries one when it is flagged. -/
theorem NoFalseFlag.flagged {operation : CreateStoreOperation} (h : NoFalseFlag operation)
    (hprimary : primaryKeyNames operation ≠ [])
    (hdistribution : distributionKeyNames operation ≠ []) : Flagged operation :=
  ⟨exists_flagged (·.primaryKey) operation.column hprimary (fun column hc => (h column hc).1),
    exists_flagged (·.distributionKey) operation.column hdistribution
      (fun column hc => (h column hc).2)⟩

/-- A flagged operation creates its table only if no flag says no, and no name
has a NUL. -/
theorem CreatesAsFlagged.noFalseFlag {operation : CreateStoreOperation}
    (h : CreatesAsFlagged operation) (hflagged : Flagged operation) :
    NoFalseFlag operation ∧ NoNul operation := by
  obtain ⟨hprimary, hdistribution⟩ := hflagged.carried
  obtain ⟨trace, o, hruns, ⟨answer, hquery⟩, -⟩ :=
    (executeCreateStore_of_carried hprimary hdistribution []).can failing
  obtain ⟨query, answer', htrace, hcreates⟩ := h.1 hflagged [] trace o hruns
  obtain rfl : query = cStr (createTableText operation) := by
    have hevent := (List.cons.inj (htrace.symm.trans hquery)).1
    exact Call.query.inj (Sigma.mk.inj hevent).1
  have hnul := hcreates.noNul
  rw [cStr_eq_self hnul.notMem_createTableText] at hcreates
  exact ⟨(createTableText_eq_iff operation).mp ((createsTable_iff hflagged).mp hcreates), hnul⟩

/-- **A table is created as it is flagged exactly when no flag says no and no
name has a NUL**, or when no table is created, as one of the flags is not
there at all. -/
theorem createsAsFlagged_iff (operation : CreateStoreOperation) :
    CreatesAsFlagged operation
      ↔ (∀ column ∈ operation.column, column.primaryKey = none)
        ∨ (∀ column ∈ operation.column, column.distributionKey = none)
        ∨ NoFalseFlag operation ∧ NoNul operation := by
  rw [← carried_eq_nil_iff (·.primaryKey) operation.column,
    ← carried_eq_nil_iff (·.distributionKey) operation.column]
  show _ ↔ primaryKeyNames operation = [] ∨ distributionKeyNames operation = [] ∨ _
  constructor
  · intro hcreates
    by_contra hnot
    push Not at hnot
    obtain ⟨hprimary, hdistribution, hfalse⟩ := hnot
    by_cases h : Flagged operation
    · exact hfalse (hcreates.noFalseFlag h).1 (hcreates.noFalseFlag h).2
    · -- The query is run although no table is asked for.
      obtain ⟨trace, o, hruns, ⟨answer, hquery⟩, -⟩ :=
        (executeCreateStore_of_carried hprimary hdistribution []).can failing
      obtain ⟨hnone, -⟩ := hcreates.2 h [] trace o hruns
      exact absurd (hquery.symm.trans hnone) (List.cons_ne_nil _ _)
  · intro h
    refine ⟨fun hflagged transactionID => ?_, fun hmissing => ?_⟩
    · obtain ⟨hprimary, hdistribution⟩ := hflagged.carried
      obtain ⟨hfalse, hnul⟩ := (h.resolve_left hprimary).resolve_left hdistribution
      refine (executeCreateStore_of_carried hprimary hdistribution transactionID).mono ?_
      rintro trace o ⟨answer, htrace⟩
      rw [cStr_eq_self hnul.notMem_createTableText] at htrace
      exact ⟨createTableText operation, answer, htrace,
        (createsTable_iff hflagged).mpr ((createTableText_eq_iff operation).mpr hfalse)⟩
    · refine executeCreateStore_of_missing ?_
      by_contra hnot
      obtain ⟨hprimary, hdistribution⟩ := not_or.mp hnot
      exact hmissing (((h.resolve_left hprimary).resolve_left hdistribution).1.flagged hprimary
        hdistribution)

/-- **A flag that says no** makes a column part of the primary key; and of a
store whose name has a NUL nothing but the front of this name is in the query. -/
theorem not_createsAsFlagged_false :
    ¬ CreatesAsFlagged ⟨⟨ascii "t"⟩, [⟨ascii "k", .int32, some true, some true, none⟩,
        ⟨ascii "v", .int32, some false, none, none⟩]⟩
      ∧ ¬ CreatesAsFlagged ⟨⟨ascii "t\x00x"⟩,
        [⟨ascii "k", .int32, some true, some true, none⟩]⟩ := by
  refine ⟨fun h => ?_, fun h => ?_⟩
  · have hfalse := (h.noFalseFlag ⟨⟨_, List.mem_cons_self, rfl⟩, _, List.mem_cons_self, rfl⟩).1
    exact (hfalse _ (List.mem_cons_of_mem _ List.mem_cons_self)).1 rfl
  · have hnul := (h.noFalseFlag ⟨⟨_, List.mem_cons_self, rfl⟩, _, List.mem_cons_self, rfl⟩).2
    exact hnul.1 (by decide)

/-! ## Two operations with the same text -/

/-- **A type is one word, or one word and `Unsigned`.** The one word is not
`Unsigned`. -/
theorem typeText_cases (column : ColumnInfo) :
    (Solid (typeText column) ∧ typeText column ≠ ascii "Unsigned")
      ∨ ∃ word, Solid word ∧ typeText column = word ++ 32 :: ascii "Unsigned" := by
  have hwidth : column.type = .uint32 ∨ column.type = .uint64 → widthText column = [] := by
    intro htype
    unfold widthText
    rcases htype with htype | htype <;> rw [htype] <;> cases column.length <;> rfl
  have hhead : typeText column ≠ ascii "Unsigned" := by
    intro h
    have htype : (typeText column).head? = (getTypeName column.type).head? := by
      unfold typeText
      cases column.type <;> rfl
    rw [h] at htype
    exact absurd htype (by cases column.type <;> decide)
  have hsolid : Solid (getTypeName column.type) → Solid (typeText column) :=
    fun h => h.append (solid_widthText column)
  cases htype : column.type with
  | uint32 =>
    refine Or.inr ⟨ascii "Int", by decide, ?_⟩
    unfold typeText
    rw [hwidth (Or.inl htype), htype]
    decide
  | uint64 =>
    refine Or.inr ⟨ascii "Bigint", by decide, ?_⟩
    unfold typeText
    rw [hwidth (Or.inr htype), htype]
    decide
  | _ => exact Or.inl ⟨hsolid (by rw [htype]; decide), hhead⟩

/-- **The type at the end of a text is what it is**: no type is the end of
another with something before it. -/
theorem append_typeText_inj {name name' : Bytes} {column column' : ColumnInfo}
    (h : name ++ 32 :: typeText column = name' ++ 32 :: typeText column') : name = name' := by
  have hunsigned : Solid (ascii "Unsigned") := by decide
  rcases typeText_cases column with ⟨hsolid, hne⟩ | ⟨word, hword, htype⟩
  · rcases typeText_cases column' with ⟨hsolid', hne'⟩ | ⟨word', hword', htype'⟩
    · exact (append_cons_inj_right hsolid.space_notMem hsolid'.space_notMem h).1
    · rw [htype', ← List.cons_append, ← List.append_assoc] at h
      exact absurd (append_cons_inj_right hsolid.space_notMem hunsigned.space_notMem h).2 hne
  · rcases typeText_cases column' with ⟨hsolid', hne'⟩ | ⟨word', hword', htype'⟩
    · rw [htype, ← List.cons_append, ← List.append_assoc] at h
      exact absurd (append_cons_inj_right hunsigned.space_notMem hsolid'.space_notMem h).2.symm
        hne'
    · rw [htype, htype', ← List.cons_append, ← List.append_assoc, ← List.cons_append,
        ← List.append_assoc] at h
      have hfront := (append_cons_inj_right hunsigned.space_notMem hunsigned.space_notMem h).1
      exact (append_cons_inj_right hword.space_notMem hword'.space_notMem hfront).1

/-- No name of the operation has a line break inside. -/
def OneLineNames (operation : CreateStoreOperation) : Prop :=
  (10 : UInt8) ∉ operation.storeInfo.storeName
    ∧ ∀ column ∈ operation.column, (10 : UInt8) ∉ column.name

instance (operation : CreateStoreOperation) : Decidable (OneLineNames operation) :=
  inferInstanceAs (Decidable (_ ∧ _))

/-- The line of a column. -/
def columnLine (column : ColumnInfo) : Bytes :=
  column.name ++ 32 :: typeText column ++ ascii " NOT NULL, "

/-- The lines of the statement but for the last. -/
def statementLines (operation : CreateStoreOperation) (primary distribution : List Bytes) :
    List Bytes :=
  (ascii "CREATE TABLE " ++ operation.storeInfo.storeName ++ ascii "(")
    :: (operation.column.map columnLine
      ++ [ascii "PRIMARY KEY (" ++ namesText primary ++ ascii ",",
        ascii "INDEX VOLODB_PRUNE_INDEX USING BTREE (" ++ namesText distribution ++ ascii ")",
        ascii "ENGINE=NDB"])

/-- The last line of the statement. -/
def statementTail (distribution : List Bytes) : Bytes :=
  ascii "PARTITION BY KEY (" ++ namesText distribution

/-- **The statement, line by line.** -/
theorem statementText_eq_unlines (operation : CreateStoreOperation)
    (primary distribution : List Bytes) :
    statementText operation primary distribution
      = unlines (statementLines operation primary distribution)
        ++ statementTail distribution := by
  have hcolumn : ∀ column, columnText column = columnLine column ++ [10] := by
    intro column
    rw [columnText_eq]
    unfold columnLine
    simp only [List.append_assoc, List.cons_append]
    rfl
  have hcolumns : operation.column.flatMap columnText
      = unlines (operation.column.map columnLine) := by
    unfold unlines
    rw [List.flatMap_map]
    exact List.flatMap_congr fun column _ => hcolumn column
  have hopen : ascii "(\n" = ascii "(" ++ [10] := rfl
  have hindex : ascii ",\nINDEX VOLODB_PRUNE_INDEX USING BTREE ("
      = ascii "," ++ 10 :: ascii "INDEX VOLODB_PRUNE_INDEX USING BTREE (" := rfl
  have hengine : ascii ")\nENGINE=NDB\n" = ascii ")" ++ 10 :: (ascii "ENGINE=NDB" ++ [10]) :=
    rfl
  unfold statementText statementLines statementTail
  rw [hcolumns, hopen, hindex, hengine]
  simp [unlines]

/-- **Every line is one line** when the names are. -/
theorem newline_notMem_statementLines {operation : CreateStoreOperation}
    {primary distribution : List Bytes} (h : OneLineNames operation)
    (hprimary : ∀ name ∈ primary, (10 : UInt8) ∉ name)
    (hdistribution : ∀ name ∈ distribution, (10 : UInt8) ∉ name) :
    ∀ line ∈ statementLines operation primary distribution, (10 : UInt8) ∉ line := by
  have happend : ∀ {a b : Bytes}, (10 : UInt8) ∉ a → (10 : UInt8) ∉ b → (10 : UInt8) ∉ a ++ b := by
    intro a b ha hb
    rw [List.mem_append, not_or]
    exact ⟨ha, hb⟩
  have hcolumn : ∀ column ∈ operation.column, (10 : UInt8) ∉ columnLine column := by
    intro column hcolumn
    have hspace : (10 : UInt8) ∉ 32 :: typeText column :=
      List.not_mem_cons_of_ne_of_not_mem (by decide) (notMem_typeText column (by decide))
    exact happend (happend (h.2 column hcolumn) hspace) (by decide)
  intro line hline
  unfold statementLines at hline
  rw [List.mem_cons, List.mem_append, List.mem_map] at hline
  rcases hline with rfl | ⟨column, hmem, rfl⟩ | hclause
  · exact happend (happend (by decide) h.1) (by decide)
  · exact hcolumn column hmem
  · simp only [List.mem_cons, List.not_mem_nil, or_false] at hclause
    rcases hclause with rfl | rfl | rfl
    · exact happend
        (happend (by decide) (control_notMem_namesText (by decide) hprimary)) (by decide)
    · exact happend
        (happend (by decide) (control_notMem_namesText (by decide) hdistribution)) (by decide)
    · decide

/-- The names of columns with the same lines. -/
theorem map_name_eq_of_map_columnLine_eq {columns columns' : List ColumnInfo}
    (h : columns.map columnLine = columns'.map columnLine) :
    columns.map (·.name) = columns'.map (·.name) := by
  induction columns generalizing columns' with
  | nil =>
    rw [List.map_nil, List.nil_eq, List.map_eq_nil_iff] at h
    rw [h]
  | cons column columns ih =>
    cases columns' with
    | nil => exact absurd h (List.cons_ne_nil _ _)
    | cons column' columns' =>
      obtain ⟨hline, hrest⟩ := List.cons.inj h
      have hname := append_typeText_inj (List.append_cancel_right hline)
      rw [List.map_cons, List.map_cons, hname, ih hrest]

/-- **One text, one table**: two operations whose names have no line breaks
and that have the same text name the same store and the same columns, in the
same order. -/
theorem createTableText_inj (operation operation' : CreateStoreOperation)
    (h : OneLineNames operation) (h' : OneLineNames operation')
    (htext : createTableText operation = createTableText operation') :
    operation.storeInfo.storeName = operation'.storeInfo.storeName
      ∧ operation.column.map (·.name) = operation'.column.map (·.name) := by
  have hlines := fun {o : CreateStoreOperation} (ho : OneLineNames o) =>
    newline_notMem_statementLines ho (notMem_of_mem_carried ho.2 (·.primaryKey))
      (notMem_of_mem_carried ho.2 (·.distributionKey))
  have htail : ∀ {o : CreateStoreOperation}, OneLineNames o →
      (10 : UInt8) ∉ statementTail (distributionKeyNames o) := by
    intro o ho
    unfold statementTail
    rw [List.mem_append, not_or]
    exact ⟨by decide,
      control_notMem_namesText (by decide) (notMem_of_mem_carried ho.2 (·.distributionKey))⟩
  have heq : unlines (statementLines operation (primaryKeyNames operation)
          (distributionKeyNames operation)) ++ statementTail (distributionKeyNames operation)
      = unlines (statementLines operation' (primaryKeyNames operation')
          (distributionKeyNames operation'))
            ++ statementTail (distributionKeyNames operation') := by
    rw [← statementText_eq_unlines, ← statementText_eq_unlines]
    exact htext
  obtain ⟨hall, -⟩ := unlines_append_inj (hlines h) (hlines h') (htail h) (htail h') heq
  obtain ⟨hfirst, hrest⟩ := List.cons.inj hall
  refine ⟨?_, ?_⟩
  · exact List.append_cancel_left (List.append_cancel_right hfirst)
  · -- As many lines follow the columns of one as of the other.
    have hlength : (operation.column.map columnLine).length
        = (operation'.column.map columnLine).length := by
      have := congrArg List.length hrest
      simpa using this
    exact map_name_eq_of_map_columnLine_eq (List.append_inj_left hrest hlength)

/-- Two lengths that are written as one width: the operations differ, and have
the same text and the same columns. -/
theorem createTableText_inj_varchar :
    let short : CreateStoreOperation :=
      ⟨⟨ascii "t"⟩, [⟨ascii "k", .varchar, some true, some true, some 100⟩]⟩
    let long : CreateStoreOperation :=
      ⟨⟨ascii "t"⟩, [⟨ascii "k", .varchar, some true, some true, some 200⟩]⟩
    short ≠ long ∧ createTableText short = createTableText long
      ∧ short.storeInfo.storeName = long.storeInfo.storeName
      ∧ short.column.map (·.name) = long.column.map (·.name) := by
  intro short long
  have htext : createTableText short = createTableText long := rfl
  exact ⟨by decide, htext, createTableText_inj short long (by decide) (by decide) htext⟩

/-- **Two columns, or one with a clause in its name**: both operations reach
the database, and with the same text. -/
theorem createTableText_eq_of_clause_in_name :
    let two : CreateStoreOperation :=
      ⟨⟨ascii "t"⟩, [⟨ascii "k", .int32, some true, some true, none⟩,
        ⟨ascii "a", .int32, none, none, none⟩, ⟨ascii "b", .int32, none, none, none⟩]⟩
    let one : CreateStoreOperation :=
      ⟨⟨ascii "t"⟩, [⟨ascii "k", .int32, some true, some true, none⟩,
        ⟨ascii "a Int NOT NULL, \nb", .int32, none, none, none⟩]⟩
    createTableText two = createTableText one
      ∧ (primaryKeyNames two ≠ [] ∧ distributionKeyNames two ≠ [])
      ∧ (primaryKeyNames one ≠ [] ∧ distributionKeyNames one ≠ [])
      ∧ two.column.length ≠ one.column.length := by
  refine ⟨rfl, ?_, ?_, ?_⟩ <;> decide

end VoloDB
