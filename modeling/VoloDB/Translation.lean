import VoloDB.AccessPath
import VoloDB.NdbStorage

/-!
# What a tuple tells NDB

The operations of a tuple reach NDB as a long series of calls, each of which
tells an operation a little more, and any of which can fail. `Tells` is what
a message asks for, as NDB would have it: the operation, the key it is for,
the values it is given, and for a `GET` the conditions on the rows and a
record for each column of the table.

What the program keeps of an operation beside its pointer is what NDB has been
told about it (`Building`), from the call that makes the operation on. So a
transaction that is handed over to be committed has one operation for each
message, in their order, and NDB knows of each exactly what the message asks
for (`execute_tells`).
-/

namespace VoloDB

open Interaction NDBMessageProcessor NDBMessageExecutor

/-! ## What messages ask for -/

/-- The way to the rows of a `GET`, by the number of its key columns. -/
def GetOperation.path (operation : GetOperation) (table : Table) : Access :=
  if operation.primaryKey.length = table.getNoOfPrimaryKeys then .simpleRead
  else if operation.primaryKey.length ≠ 0
      ∧ operation.primaryKey.length < table.getNoOfPrimaryKeys then
    .indexScan (ascii "VOLODB_PRUNE_INDEX")
  else .scan

/-- The conditions that are used on this way. -/
def GetOperation.conditions (operation : GetOperation) (table : Table) : List (Bytes × Bytes) :=
  match operation.path table with
  | .scan => columnPairs operation.value
  | _ => columnPairs operation.primaryKey

/-- **What a message tells NDB.** -/
inductive Tells (C : Catalog) : Message → Told → Prop
  | set {operation : SetOperation} {storeInfo : StoreInfo}
      (hstore : operation.storeInfo.head? = some storeInfo) :
    Tells C (.set operation) ⟨cStr storeInfo.storeName, some .writeTuple,
      columnPairs operation.primaryKey, columnPairs operation.value, [], []⟩
  | delete {operation : DeleteOperation} {storeInfo : StoreInfo}
      (hstore : operation.storeInfo.head? = some storeInfo) :
    Tells C (.delete operation) ⟨cStr storeInfo.storeName, some .deleteTuple,
      columnPairs operation.primaryKey, [], [], []⟩
  | get {operation : GetOperation} {storeInfo : StoreInfo} {table : Table} {o : Told}
      (hstore : operation.storeInfo.head? = some storeInfo)
      (hname : o.storeName = cStr storeInfo.storeName)
      (htable : C.table (cStr storeInfo.storeName) = some table)
      (haccess : o.access = some (operation.path table))
      (hconditions : o.conditions table = operation.conditions table)
      (hrecords : o.records.map Prod.snd = List.range table.getNoOfColumns)
      (hnodup : (o.records.map Prod.fst).Nodup) :
    Tells C (.get operation) o

/-- **The messages NDB can be told**: manipulation operations that name a
store; and where a `GET` compares columns in a scan, its table has them. -/
def Message.Tellable (C : Catalog) : Message → Prop
  | .set operation => operation.storeInfo ≠ []
  | .delete operation => operation.storeInfo ≠ []
  | .get operation => ∃ storeInfo, operation.storeInfo.head? = some storeInfo
      ∧ ∀ table, C.table (cStr storeInfo.storeName) = some table →
        operation.path table = .scan →
        ∀ column ∈ operation.value, (table.getColumn (cStr column.name)).isSome
  | _ => False

/-- What NDB has been told about an operation, by what the program keeps. -/
def Told.of (o : OperationState) : Told :=
  ⟨o.operation.storeName, some o.operation.access, o.operation.equals, o.operation.values,
    o.operation.filter, o.columnValues.zipIdx⟩

variable {C : Catalog}

/-- **The state of NDB while a transaction is built**: what the program keeps
of its operations is what NDB knows. -/
structure Building (d : C.Contents) (transaction : Nat) (done : List OperationState)
    (s : NdbState C) : Prop where
  contents_eq : s.contents = d
  members_eq : s.members transaction = done.map (·.operation.pointer)
  nodup : (done.map (·.operation.pointer)).Nodup
  told : ∀ o ∈ done, s.told o.operation.pointer = .of o

section Building

variable {d : C.Contents} {transaction : Nat} {done : List OperationState} {s : NdbState C}
  {type : FrameItemType} {operation : NdbOperation} {records : List RecAttr}

/-- A transaction that has just been started. -/
theorem building_nil (h : s.contents = d) (hmembers : s.members transaction = []) :
    Building d transaction [] s :=
  ⟨h, hmembers, List.nodup_nil, fun _ ho => absurd ho List.not_mem_nil⟩

theorem Building.told_last {x : OperationState} (h : Building d transaction (done ++ [x]) s) :
    s.told x.operation.pointer = .of x :=
  h.told x (List.mem_append_right _ List.mem_cons_self)

/-- The last operation is told something more. -/
theorem Building.tell {x y : OperationState} {o : Told}
    (h : Building d transaction (done ++ [x]) s)
    (hpointer : y.operation.pointer = x.operation.pointer) (ho : o = .of y) :
    Building d transaction (done ++ [y]) (s.tell x.operation.pointer o) := by
  have hpointers : (done ++ [y]).map (·.operation.pointer)
      = (done ++ [x]).map (·.operation.pointer) := by
    rw [List.map_append, List.map_append, List.map_singleton, List.map_singleton, hpointer]
  refine ⟨h.contents_eq, h.members_eq.trans hpointers.symm, hpointers ▸ h.nodup, ?_⟩
  intro z hz
  show Function.update s.told x.operation.pointer o z.operation.pointer = _
  rcases List.mem_append.mp hz with hz | hz
  · -- the others have other pointers
    have hnodup := h.nodup
    rw [List.map_append, List.nodup_append'] at hnodup
    have hne : z.operation.pointer ≠ x.operation.pointer := fun heq =>
      hnodup.2.2 (List.mem_map_of_mem hz) (List.mem_singleton.mpr heq)
    rw [Function.update_of_ne hne]
    exact h.told z (List.mem_append_left _ hz)
  · rw [List.mem_singleton.mp hz, hpointer, Function.update_self, ho]

/-- An operation is made, and defined. -/
theorem Building.define (h : Building d transaction done s) {pointer : Nat}
    (hnew : pointer ∉ s.members transaction) {storeName : Bytes} {access : Access} {o : Told}
    (ho : o = .of ⟨type, .new pointer storeName access, []⟩) :
    Building d transaction (done ++ [⟨type, .new pointer storeName access, []⟩])
      ((s.make transaction storeName (some pointer)).tell pointer o) := by
  have hmembers := h.members_eq
  refine ⟨h.contents_eq, ?_, ?_, ?_⟩
  · show Function.update s.members transaction _ transaction = _
    rw [Function.update_self, hmembers, List.map_append]
    rfl
  · rw [List.map_append, List.nodup_append']
    refine ⟨h.nodup, List.nodup_singleton _, fun p hp hp' => hnew ?_⟩
    obtain rfl : p = pointer := List.mem_singleton.mp hp'
    rwa [hmembers]
  · intro x hx
    show Function.update (Function.update s.told pointer _) pointer o x.operation.pointer = _
    rcases List.mem_append.mp hx with hdone | hlast
    · have hne : x.operation.pointer ≠ pointer := fun heq =>
        hnew (hmembers ▸ heq ▸ List.mem_map_of_mem hdone)
      rw [Function.update_of_ne hne, Function.update_of_ne hne]
      exact h.told x hdone
    · rw [List.mem_singleton.mp hlast, ho]
      exact Function.update_self _ _ _

end Building

/-! ## Filling an operation -/

namespace NDBMessageExecutor

variable {d : C.Contents} {transaction : Nat} {done : List OperationState} {s : NdbState C}
  {type : FrameItemType}

/-- **What filling an operation comes to**: nothing has been committed, and
if the operation has been filled, NDB knows all of it. -/
def Filled (d : C.Contents) (transaction : Nat) (done : List OperationState)
    (type : FrameItemType) (s : NdbState C) (r : Option NdbOperation) : Prop :=
  s.contents = d ∧ ∀ o ∈ r, Building d transaction (done ++ [⟨type, o, []⟩]) s

theorem filled_none (h : s.contents = d) : Filled d transaction done type s none :=
  ⟨h, fun _ ho => nomatch ho⟩

theorem filled_some {o : NdbOperation}
    (h : Building d transaction (done ++ [⟨type, o, []⟩]) s) :
    Filled d transaction done type s (some o) :=
  ⟨h.contents_eq, fun _ ho => Option.some.inj ho ▸ h⟩

theorem setEqual_attains (columns : List ColumnValue) {o : NdbOperation}
    (h : Building d transaction (done ++ [⟨type, o, []⟩]) s) :
    (setEqual columns o).Attains (ndbContract C) s (Filled d transaction done type) := by
  induction columns generalizing o s with
  | nil => exact Prog.attains_pure (filled_some h)
  | cons column columns ih =>
    refine Prog.Attains.perform_bind (fun res _ => ?_)
    cases res with
    | failed => exact Prog.attains_pure (filled_none h.contents_eq)
    | ok =>
      refine ih (h.tell rfl ?_)
      rw [h.told_last]
      rfl

theorem setValues_attains (columns : List ColumnValue) {o : NdbOperation}
    (h : Building d transaction (done ++ [⟨type, o, []⟩]) s) :
    (setValues columns o).Attains (ndbContract C) s (Filled d transaction done type) := by
  induction columns generalizing o s with
  | nil => exact Prog.attains_pure (filled_some h)
  | cons column columns ih =>
    refine Prog.Attains.perform_bind (fun res _ => ?_)
    cases res with
    | failed => exact Prog.attains_pure (filled_none h.contents_eq)
    | ok =>
      refine ih (h.tell rfl ?_)
      rw [h.told_last]
      rfl

theorem fillSet_attains (operation : SetOperation) {o : NdbOperation}
    (h : Building d transaction (done ++ [⟨type, o, []⟩]) s) :
    (fillSet operation o).Attains (ndbContract C) s (Filled d transaction done type) := by
  refine (setEqual_attains operation.primaryKey h).bind (fun s' r h' => ?_)
  cases r with
  | none => exact Prog.attains_pure (filled_none h'.1)
  | some o' => exact setValues_attains operation.value (h'.2 o' rfl)

/-- The comparisons do not fail where the table has their columns. -/
theorem setComparisons_attains {table : Table} {columns : List ColumnValue}
    (hcolumns : ∀ column ∈ columns, (table.getColumn (cStr column.name)).isSome)
    {o : NdbOperation} (h : Building d transaction (done ++ [⟨type, o, []⟩]) s) :
    (setComparisons table columns o).Attains (ndbContract C) s
      (Filled d transaction done type) := by
  induction columns generalizing o s with
  | nil => exact Prog.attains_pure (filled_some h)
  | cons column columns ih =>
    obtain ⟨hcolumn, hrest⟩ := List.forall_mem_cons.mp hcolumns
    obtain ⟨columnNo, hno⟩ := Option.isSome_iff_exists.mp hcolumn
    unfold setComparisons
    rw [hno]
    refine Prog.Attains.perform_bind (fun res _ => ?_)
    cases res with
    | failed => exact Prog.attains_pure (filled_none h.contents_eq)
    | ok =>
      refine ih hrest (h.tell rfl ?_)
      rw [h.told_last]
      rfl

theorem setEqualValue_attains {table : Table} {value : List ColumnValue}
    (hcolumns : ∀ column ∈ value, (table.getColumn (cStr column.name)).isSome)
    {o : NdbOperation} (h : Building d transaction (done ++ [⟨type, o, []⟩]) s) :
    (setEqualValue value o table).Attains (ndbContract C) s
      (Filled d transaction done type) := by
  refine Prog.Attains.perform_bind (fun res _ => ?_)
  cases res with
  | failed => exact Prog.attains_pure (filled_none h.contents_eq)
  | ok =>
    refine (setComparisons_attains hcolumns h).bind (fun s' r h' => ?_)
    cases r with
    | none => exact Prog.attains_pure (filled_none h'.1)
    | some o' =>
      refine Prog.Attains.perform_bind (fun res _ => ?_)
      cases res with
      | failed => exact Prog.attains_pure (filled_none h'.1)
      | ok => exact Prog.attains_pure h'

/-- **An operation is made, defined and filled in.** -/
theorem defineAnd_attains (h : Building d transaction done s) {access : Access}
    {storeName : Bytes} {fill : NdbOperation → Exec (Option NdbOperation)}
    (hfill : ∀ pointer s', Building d transaction
        (done ++ [⟨type, .new pointer (cStr storeName) access, []⟩]) s' →
      (fill (.new pointer (cStr storeName) access)).Attains (ndbContract C) s'
        (Filled d transaction done type))
    {pointer : Option Nat} (hmake : s.MayMake transaction (cStr storeName) pointer) :
    (defineAnd access storeName fill pointer).Attains (ndbContract C)
      (s.make transaction (cStr storeName) pointer) (Filled d transaction done type) := by
  cases pointer with
  | none => exact Prog.attains_pure (filled_none h.contents_eq)
  | some pointer =>
    refine Prog.Attains.perform_bind (fun _ _ => hfill pointer _ ?_)
    refine h.define (hmake pointer rfl).2 ?_
    show { Function.update s.told pointer _ pointer with access := some access } = _
    rw [Function.update_self]
    rfl

/-! ## The operations of messages -/

theorem yields_executeSet_tells {operation : SetOperation} {storeInfo : StoreInfo}
    (hstore : operation.storeInfo.head? = some storeInfo) (transaction : Nat) :
    YieldsSome (executeSet operation transaction)
      (fun o => Tells C (.set operation) (.of ⟨.set, o, []⟩)) := by
  obtain ⟨rest, hs⟩ := List.head?_eq_some_iff.mp hstore
  rw [executeSet_eq hs]
  refine Prog.Yields.perform_bind (fun _ => yields_defineAnd (fun pointer => ?_) _)
  refine (yields_fillSet operation _).mono (fun o h a ha => ?_)
  rw [h a ha]
  exact .set hstore

theorem yields_executeDelete_tells {operation : DeleteOperation} {storeInfo : StoreInfo}
    (hstore : operation.storeInfo.head? = some storeInfo) (transaction : Nat) :
    YieldsSome (executeDelete operation transaction)
      (fun o => Tells C (.delete operation) (.of ⟨.delete, o, []⟩)) := by
  obtain ⟨rest, hs⟩ := List.head?_eq_some_iff.mp hstore
  rw [executeDelete_eq hs]
  refine Prog.Yields.perform_bind (fun _ => yields_defineAnd (fun pointer => ?_) _)
  refine (yields_setEqual operation.primaryKey _).mono (fun o h a ha => ?_)
  rw [h a ha]
  exact .delete hstore

theorem executeSet_attains {operation : SetOperation} (hstore : operation.storeInfo ≠ [])
    (h : Building d transaction done s) :
    (executeSet operation transaction).Attains (ndbContract C) s
      (Filled d transaction done .set) := by
  obtain ⟨storeInfo, rest, hs⟩ := List.exists_cons_of_ne_nil hstore
  rw [executeSet_eq hs]
  exact Prog.Attains.perform_bind (fun pointer hmake =>
    defineAnd_attains h (fun _ _ => fillSet_attains operation) hmake)

theorem executeDelete_attains {operation : DeleteOperation} (hstore : operation.storeInfo ≠ [])
    (h : Building d transaction done s) :
    (executeDelete operation transaction).Attains (ndbContract C) s
      (Filled d transaction done .delete) := by
  obtain ⟨storeInfo, rest, hs⟩ := List.exists_cons_of_ne_nil hstore
  rw [executeDelete_eq hs]
  exact Prog.Attains.perform_bind (fun pointer hmake =>
    defineAnd_attains h (fun _ _ => setEqual_attains operation.primaryKey) hmake)

/-- The comparisons are all that a scan is told. -/
theorem yields_setComparisons_eq (table : Table) (columns : List ColumnValue)
    (ndbOperation : NdbOperation) :
    YieldsSome (setComparisons table columns ndbOperation)
      (fun o => o = { ndbOperation with filter := o.filter }) := by
  induction columns generalizing ndbOperation with
  | nil => exact yieldsSome_some rfl
  | cons column columns ih =>
    unfold setComparisons
    cases table.getColumn (cStr column.name) with
    | none => trivial
    | some columnNo =>
      refine Prog.Yields.perform_bind (fun res => ?_)
      cases res with
      | failed => exact yieldsSome_none
      | ok => exact (ih _).mono (fun o h a ha => h a ha)

theorem yields_setEqualValue_eq (table : Table) (value : List ColumnValue)
    (ndbOperation : NdbOperation) :
    YieldsSome (setEqualValue value ndbOperation table)
      (fun o => o = { ndbOperation with filter := o.filter }) := by
  refine Prog.Yields.perform_bind (fun res => ?_)
  cases res with
  | failed => exact yieldsSome_none
  | ok =>
    refine (yields_setComparisons_eq table value ndbOperation).bind (fun compared h => ?_)
    cases compared with
    | none => exact yieldsSome_none
    | some compared =>
      refine Prog.Yields.perform_bind (fun res => ?_)
      cases res with
      | failed => exact yieldsSome_none
      | ok => exact yieldsSome_some (h compared rfl)

/-- Comparisons by number are conditions by name. -/
theorem filterMap_comparisons {table : Table} {columns : List ColumnValue}
    {comparisons : List (Nat × Bytes)}
    (h : List.Forall₂ (fun column comparison =>
      table.getColumn (cStr column.name) = some comparison.1
        ∧ comparison.2 = column.value) columns comparisons) :
    comparisons.filterMap (fun comparison =>
      table.columns[comparison.1]?.map (fun column => (column.name, comparison.2)))
      = columnPairs columns := by
  induction h with
  | nil => rfl
  | @cons column comparison columns comparisons hc _ ih =>
    obtain ⟨c, hget, hname⟩ := Table.name_of_getColumn hc.1
    rw [List.filterMap_cons, hget, Option.map_some, ih, hname, hc.2]
    rfl

/-- **The operation of a `GET`, as its path has made it.** -/
structure Chosen (operation : GetOperation) (table : Table) (storeName : Bytes)
    (o : NdbOperation) : Prop where
  storeName_eq : o.storeName = storeName
  access_eq : o.access = operation.path table
  conditions_eq : ∀ records,
    (Told.of ⟨.get, o, records⟩).conditions table = operation.conditions table

theorem yields_accessPath_chosen (operation : GetOperation) (storeName : Bytes)
    (transaction : Nat) (table : Table) :
    YieldsSome (accessPath operation storeName transaction table)
      (Chosen operation table (cStr storeName)) := by
  rw [accessPath_eq]
  split
  · next hlen =>
    have hpath : operation.path table = .simpleRead := if_pos hlen
    refine Prog.Yields.perform_bind (fun _ => yields_defineAnd (fun pointer => ?_) _)
    refine (yields_setEqual operation.primaryKey _).mono (fun o h a ha => ?_)
    rw [h a ha]
    refine ⟨rfl, hpath.symm, fun records => ?_⟩
    rw [GetOperation.conditions, hpath]
    rfl
  · next hlen =>
    split
    · next hfewer =>
      have hpath : operation.path table = .indexScan (ascii "VOLODB_PRUNE_INDEX") :=
        (if_neg hlen).trans (if_pos hfewer)
      refine Prog.Yields.perform_bind (fun _ => yields_defineAnd (fun pointer => ?_) _)
      refine (yields_setEqual operation.primaryKey _).mono (fun o h a ha => ?_)
      rw [h a ha]
      refine ⟨rfl, hpath.symm, fun records => ?_⟩
      rw [GetOperation.conditions, hpath]
      rfl
    · next hmore =>
      have hpath : operation.path table = .scan := (if_neg hlen).trans (if_neg hmore)
      refine Prog.Yields.perform_bind (fun _ => yields_defineAnd (fun pointer => ?_) _)
      refine (Prog.Yields.and (yields_setEqualValue_eq table operation.value _)
        (yields_setEqualValue_filter table operation.value pointer _)).mono ?_
      rintro o ⟨heq, hfilter⟩ a ha
      rw [heq a ha]
      refine ⟨rfl, hpath.symm, fun records => ?_⟩
      rw [GetOperation.conditions, hpath]
      exact filterMap_comparisons (hfilter a ha)

theorem accessPath_attains {operation : GetOperation} {table : Table}
    (hcolumns : operation.path table = .scan →
      ∀ column ∈ operation.value, (table.getColumn (cStr column.name)).isSome)
    (storeName : Bytes) (h : Building d transaction done s) :
    (accessPath operation storeName transaction table).Attains (ndbContract C) s
      (Filled d transaction done .get) := by
  rw [accessPath_eq]
  split
  · exact Prog.Attains.perform_bind (fun pointer hmake =>
      defineAnd_attains h (fun _ _ => setEqual_attains operation.primaryKey) hmake)
  · next hlen =>
    split
    · exact Prog.Attains.perform_bind (fun pointer hmake =>
        defineAnd_attains h (fun _ _ => setEqual_attains operation.primaryKey) hmake)
    · next hmore =>
      have hscan := hcolumns ((if_neg hlen).trans (if_neg hmore))
      exact Prog.Attains.perform_bind (fun pointer hmake =>
        defineAnd_attains h (fun _ _ => setEqualValue_attains hscan) hmake)

/-- **The records of the columns**, one for each, and no record twice. -/
theorem getValues_attains {o : NdbOperation} (n : Nat) {records : List RecAttr}
    (h : Building d transaction (done ++ [⟨.get, o, records⟩]) s) (hnodup : records.Nodup) :
    (getValues o.pointer (List.range' records.length n) records).Attains (ndbContract C) s
      (fun s' r => s'.contents = d ∧ ∀ all ∈ r, all.length = records.length + n ∧ all.Nodup
        ∧ Building d transaction (done ++ [⟨.get, o, all⟩]) s') := by
  induction n generalizing records s with
  | zero =>
    refine Prog.attains_pure ⟨h.contents_eq, fun all hall => ?_⟩
    obtain rfl := Option.some.inj hall
    exact ⟨rfl, hnodup, h⟩
  | succ n ih =>
    rw [List.range'_succ]
    unfold getValues
    refine Prog.Attains.perform_bind (fun record hadmits => ?_)
    cases record with
    | none => exact Prog.attains_pure ⟨h.contents_eq, fun _ hall => nomatch hall⟩
    | some record =>
      have hnew : record ∉ (s.told o.pointer).records.map Prod.fst := hadmits
      rw [h.told_last] at hnew
      have hrecords : (Told.of ⟨.get, o, records⟩).records.map Prod.fst = records :=
        List.zipIdx_map_fst 0 records
      rw [hrecords] at hnew
      have hnodup' : (records ++ [record]).Nodup :=
        List.nodup_append_comm.mp (List.nodup_cons.mpr ⟨hnew, hnodup⟩)
      have htell : Building d transaction (done ++ [⟨.get, o, records ++ [record]⟩])
          (s.tell o.pointer { s.told o.pointer with
            records := (s.told o.pointer).records ++ [(record, records.length)] }) := by
        refine h.tell rfl ?_
        have hzip :
            (records ++ [record]).zipIdx = records.zipIdx ++ [(record, records.length)] := by
          rw [List.zipIdx_append, Nat.zero_add]
          rfl
        rw [h.told_last]
        exact congrArg (Told.mk _ _ _ _ _) hzip.symm
      have hlength : (records ++ [record]).length = records.length + 1 := List.length_append
      have hrest := ih htell hnodup'
      rw [hlength] at hrest
      refine hrest.mono ?_
      rintro s' r ⟨hcontents, hall⟩
      refine ⟨hcontents, fun all hmem => ?_⟩
      obtain ⟨hlen, hrest⟩ := hall all hmem
      exact ⟨by omega, hrest⟩

/-- The table that is found is that of the store. -/
theorem tableInfoOf_attains {cachedName storeName : Bytes}
    (hname : cStr cachedName = cStr storeName) :
    (tableInfoOf cachedName storeName).Attains (ndbContract C) s
      (fun s' r => s' = s ∧ ∀ table ∈ r, C.table (cStr storeName) = some table) := by
  refine Prog.Attains.perform_bind (fun cached hadmits => ?_)
  cases cached with
  | some table =>
    refine Prog.attains_pure ⟨rfl, fun found hfound => ?_⟩
    rw [← Option.some.inj hfound, ← hname]
    exact hadmits
  | none =>
    refine Prog.Attains.perform_bind (fun found hadmits => ?_)
    cases found with
    | none => exact Prog.attains_pure ⟨rfl, fun _ h => nomatch h⟩
    | some table =>
      refine Prog.Attains.perform_bind (fun _ _ => Prog.attains_pure ⟨rfl, fun found h => ?_⟩)
      rw [← Option.some.inj h]
      exact hadmits

/-- What adding an operation comes to: nothing has been committed, and an
operation that has been added is the last of the transaction. -/
def Added (d : C.Contents) (transaction : Nat) (done : List OperationState) (message : Message)
    (s : NdbState C) (r : Option OperationState) : Prop :=
  s.contents = d ∧ ∀ o ∈ r, Building d transaction (done ++ [o]) s
    ∧ o.type = FrameUtils.getFrameType message ∧ Tells C message (.of o)

/-- An operation that has been filled with what its message asks for. -/
theorem added_of_filled {message : Message} {p : Exec (Option NdbOperation)}
    (htype : type = FrameUtils.getFrameType message)
    (hp : p.Attains (ndbContract C) s (Filled d transaction done type))
    (htells : YieldsSome p (fun o => Tells C message (.of ⟨type, o, []⟩))) :
    (do let o ← p; return o.map (fun o => ⟨type, o, []⟩) : Exec (Option OperationState)).Attains
      (ndbContract C) s (Added d transaction done message) := by
  refine (hp.and_yields htells).bind ?_
  rintro s' o ⟨⟨hcontents, hbuilding⟩, htells⟩
  refine Prog.attains_pure ⟨hcontents, fun added hadded => ?_⟩
  obtain ⟨o, rfl, rfl⟩ := Option.map_eq_some_iff.mp hadded
  exact ⟨hbuilding o rfl, htype, htells o rfl⟩

theorem executeGet_attains {operation : GetOperation}
    (htellable : Message.Tellable C (.get operation)) (h : Building d transaction done s) :
    (executeGet operation transaction).Attains (ndbContract C) s (fun s' r =>
      s'.contents = d ∧ ∀ a ∈ r, Building d transaction (done ++ [⟨.get, a.1, a.2⟩]) s'
        ∧ Tells C (.get operation) (.of ⟨.get, a.1, a.2⟩)) := by
  obtain ⟨storeInfo, hstore, hcolumns⟩ := htellable
  obtain ⟨rest, hs⟩ := List.head?_eq_some_iff.mp hstore
  unfold executeGet
  rw [hs]
  show Prog.Attains _ s (tableInfoOf storeInfo.storeName storeInfo.storeName >>= _) _
  refine Prog.Attains.bind (tableInfoOf_attains rfl) ?_
  rintro _ tableInfo ⟨rfl, htable⟩
  cases tableInfo with
  | none => exact Prog.attains_pure ⟨h.contents_eq, fun _ ha => nomatch ha⟩
  | some table =>
    have htable := htable table rfl
    refine Prog.Attains.bind ((accessPath_attains (hcolumns table htable) _ h).and_yields
      (yields_accessPath_chosen operation storeInfo.storeName transaction table)) ?_
    rintro s' o ⟨⟨hcontents, hbuilding⟩, hchosen⟩
    cases o with
    | none => exact Prog.attains_pure ⟨hcontents, fun _ ha => nomatch ha⟩
    | some o =>
      have hchosen := hchosen o rfl
      dsimp only
      rw [List.range_eq_range']
      refine Prog.Attains.bind
        (getValues_attains table.getNoOfColumns (hbuilding o rfl) List.nodup_nil) ?_
      rintro s'' records ⟨hcontents', hrecords⟩
      cases records with
      | none => exact Prog.attains_pure ⟨hcontents', fun _ ha => nomatch ha⟩
      | some records =>
        obtain ⟨hlength, hnodup, hbuilding'⟩ := hrecords records rfl
        refine Prog.attains_pure ⟨hcontents', fun a ha => ?_⟩
        obtain rfl := Option.some.inj ha
        refine ⟨hbuilding', .get hstore hchosen.storeName_eq htable
          (congrArg some hchosen.access_eq) (hchosen.conditions_eq records) ?_ ?_⟩
        · show records.zipIdx.map Prod.snd = _
          rw [List.zipIdx_map_snd, hlength, List.length_nil, Nat.zero_add,
            List.range_eq_range']
        · show (records.zipIdx.map Prod.fst).Nodup
          rwa [List.zipIdx_map_fst]

/-! ## Transactions -/

theorem cStr_cStr (b : Bytes) : cStr (cStr b) = cStr b := List.takeWhile_idem

/-- The calls of an open transaction, or none. -/
def Opened (d : C.Contents) (transaction : Option Nat) (done : List OperationState)
    (s : NdbState C) : Prop :=
  s.contents = d ∧ match transaction with
    | none => done = []
    | some transaction => Building d transaction done s

theorem startTransaction_attains (h : s.contents = d) (columns : List ColumnValue)
    (storeName : Bytes) :
    (startTransaction columns storeName).Attains (ndbContract C) s
      (fun s' r => s'.contents = d ∧ ∀ t ∈ r, Building d t [] s') := by
  have hstart : ∀ table hint, (perform (.startTransaction table hint)).Attains (ndbContract C) s
      (fun s' r => s'.contents = d ∧ ∀ t ∈ r, Building d t [] s') := by
    intro table hint
    refine Prog.Attains.perform_bind (fun started _ => Prog.attains_pure ?_)
    cases started with
    | none => exact ⟨h, fun _ ht => nomatch ht⟩
    | some t =>
      refine ⟨h, fun t' ht => ?_⟩
      obtain rfl := Option.some.inj ht
      exact building_nil h (Function.update_self _ _ _)
  refine Prog.Attains.bind (tableInfoOf_attains (cStr_cStr storeName)) ?_
  rintro _ tableInfo ⟨rfl, -⟩
  cases tableInfo with
  | none => exact Prog.attains_pure ⟨h, fun _ ht => nomatch ht⟩
  | some table =>
    dsimp only
    split
    · rw [getHint_newHint]
      exact hstart table _
    · exact hstart table []

theorem openTransaction_attains {transaction : Option Nat} (h : Opened d transaction done s)
    (columns : List ColumnValue) (storeName : Bytes) :
    (openTransaction transaction columns storeName).Attains (ndbContract C) s
      (fun s' r => s'.contents = d ∧ ∀ t ∈ r, Building d t done s') := by
  cases transaction with
  | none =>
    obtain ⟨hcontents, rfl⟩ := h
    exact startTransaction_attains hcontents columns storeName
  | some t =>
    refine Prog.attains_pure ⟨h.1, fun t' ht => ?_⟩
    obtain rfl := Option.some.inj ht
    exact h.2

/-- What the branch of a manipulation operation comes to. -/
def Manipulated (d : C.Contents) (done : List OperationState) (message : Message)
    (s : NdbState C) (r : Option Nat × Option OperationState) : Prop :=
  s.contents = d ∧ ∀ o ∈ r.2, ∃ t, r.1 = some t ∧ Added d t done message s (some o)

theorem manipulate_attains {message : Message} {transaction : Option Nat}
    (h : Opened d transaction done s) {storeInfo : List StoreInfo} (hstore : storeInfo ≠ [])
    (primaryKey : List ColumnValue) {add : Nat → Exec (Option OperationState)}
    (hadd : ∀ t s', Building d t done s' →
      (add t).Attains (ndbContract C) s' (Added d t done message)) :
    (manipulate storeInfo primaryKey transaction add).Attains (ndbContract C) s
      (Manipulated d done message) := by
  obtain ⟨store, rest, rfl⟩ := List.exists_cons_of_ne_nil hstore
  show Prog.Attains _ s (openTransaction transaction primaryKey store.storeName >>= _) _
  refine Prog.Attains.bind (openTransaction_attains h primaryKey store.storeName) ?_
  rintro s' started ⟨hcontents, hbuilding⟩
  cases started with
  | none => exact Prog.attains_pure ⟨hcontents, fun _ ho => nomatch ho⟩
  | some t =>
    refine (hadd t s' (hbuilding t rfl)).bind (fun s'' o h'' => Prog.attains_pure ⟨h''.1, ?_⟩)
    rintro o' rfl
    exact ⟨t, rfl, h''⟩

/-- **The branch of a manipulation operation** tells NDB what the message asks
for. -/
theorem executeManipulation_attains {message : Message} (hm : message.Tellable C)
    {transaction : Option Nat} (h : Opened d transaction done s) :
    (executeManipulation message transaction).Attains (ndbContract C) s
      (Manipulated d done message) := by
  cases message with
  | set operation =>
    refine manipulate_attains h hm _ (fun t s' hbuilding => ?_)
    obtain ⟨storeInfo, rest, hs⟩ := List.exists_cons_of_ne_nil hm
    have hstore : operation.storeInfo.head? = some storeInfo := by rw [hs, List.head?_cons]
    exact added_of_filled rfl (executeSet_attains hm hbuilding) (yields_executeSet_tells hstore t)
  | delete operation =>
    refine manipulate_attains h hm _ (fun t s' hbuilding => ?_)
    obtain ⟨storeInfo, rest, hs⟩ := List.exists_cons_of_ne_nil hm
    have hstore : operation.storeInfo.head? = some storeInfo := by rw [hs, List.head?_cons]
    exact added_of_filled rfl (executeDelete_attains hm hbuilding)
      (yields_executeDelete_tells hstore t)
  | get operation =>
    obtain ⟨storeInfo, hstore, -⟩ := id hm
    have hne : operation.storeInfo ≠ [] := fun hnil => by simp [hnil] at hstore
    refine manipulate_attains h hne _ (fun t s' hbuilding => ?_)
    refine (executeGet_attains hm hbuilding).bind ?_
    rintro s'' found ⟨hcontents, hfound⟩
    refine Prog.attains_pure ⟨hcontents, fun added hadded => ?_⟩
    obtain ⟨a, rfl, rfl⟩ := Option.map_eq_some_iff.mp hadded
    exact ⟨(hfound a rfl).1, rfl, (hfound a rfl).2⟩
  | _ => exact hm.elim

theorem failureResult_attains (h : s.contents = d) (transactionID : Bytes)
    (transaction : Option Nat) :
    (failureResult transactionID transaction).Attains (ndbContract C) s
      (fun s' _ => s'.contents = d) := by
  cases transaction with
  | none => exact Prog.attains_pure h
  | some t =>
    exact Prog.Attains.perform_bind (fun _ _ =>
      Prog.Attains.perform_bind (fun _ _ => Prog.attains_pure h))

/-- What the program keeps of an operation is what its message asks for. -/
def Realizes (C : Catalog) (message : Message) (o : OperationState) : Prop :=
  o.type = FrameUtils.getFrameType message ∧ Tells C message (.of o)

variable (P : Protobuf)

/-- **One turn of the loop.** -/
theorem executeMessage_attains {message : Message} (hm : message.Tellable C)
    (messagesTuple : FrameMessagesTuple) {l : LoopState}
    (h : Opened d l.transaction l.transactionOperations s) :
    (executeMessage P messagesTuple l message).Attains (ndbContract C) s (fun s' next =>
      s'.contents = d ∧ ∀ l' ∈ next, Opened d l'.transaction l'.transactionOperations s'
        ∧ ∃ o, l'.transactionOperations = l.transactionOperations ++ [o]
          ∧ Realizes C message o) := by
  have hdefinition : ¬ FrameUtils.isDefinitionFrame message = true := by
    cases message <;> first | exact Bool.false_ne_true | exact hm.elim
  unfold executeMessage
  rw [if_neg hdefinition]
  refine (executeManipulation_attains hm h).bind ?_
  rintro s' ⟨transaction, newOperation⟩ ⟨hcontents, hadded⟩
  cases newOperation with
  | some o =>
    obtain ⟨t, rfl, -, hadded⟩ := hadded o rfl
    obtain ⟨hbuilding, hrealizes⟩ := hadded o rfl
    refine Prog.attains_pure ⟨hcontents, fun l' hl' => ?_⟩
    obtain rfl := Option.some.inj hl'
    exact ⟨⟨hcontents, hbuilding⟩, o, rfl, hrealizes⟩
  | none =>
    refine (failureResult_attains hcontents _ transaction).bind (fun s'' result h'' => ?_)
    rw [replyWithResult_eq]
    refine Prog.Attains.perform_bind (fun _ _ => Prog.attains_pure ⟨h'', ?_⟩)
    exact fun _ hl' => nomatch hl'

theorem executeMessages_attains {messages : List Message}
    (hm : ∀ message ∈ messages, message.Tellable C) (messagesTuple : FrameMessagesTuple)
    {l : LoopState} (h : Opened d l.transaction l.transactionOperations s) :
    (executeMessages P messagesTuple messages l).Attains (ndbContract C) s (fun s' last =>
      s'.contents = d ∧ ∀ l' ∈ last, Opened d l'.transaction l'.transactionOperations s'
        ∧ ∃ more, l'.transactionOperations = l.transactionOperations ++ more
          ∧ List.Forall₂ (Realizes C) messages more) := by
  induction messages generalizing l s with
  | nil =>
    refine Prog.attains_pure ⟨h.1, fun l' hl' => ?_⟩
    obtain rfl := Option.some.inj hl'
    exact ⟨h, [], (List.append_nil _).symm, .nil⟩
  | cons message messages ih =>
    obtain ⟨hmessage, hmessages⟩ := List.forall_mem_cons.mp hm
    refine (executeMessage_attains P hmessage messagesTuple h).bind ?_
    rintro s' next ⟨hcontents, hnext⟩
    cases next with
    | none => exact Prog.attains_pure ⟨hcontents, fun _ hl' => nomatch hl'⟩
    | some l' =>
      obtain ⟨hopened, o, ho, hrealizes⟩ := hnext l' rfl
      refine (ih hmessages hopened).mono ?_
      rintro s'' last ⟨hcontents', hlast⟩
      refine ⟨hcontents', fun l'' hl'' => ?_⟩
      obtain ⟨hopened', more, hmore, hall⟩ := hlast l'' hl''
      refine ⟨hopened', o :: more, ?_, .cons hrealizes hall⟩
      rw [hmore, ho, List.append_assoc, List.singleton_append]

/-- **What executing a tuple comes to**, for NDB: nothing has been committed,
and if a transaction has been prepared, NDB knows of its operations what the
messages ask for. -/
theorem execute_attains {t : FrameMessagesTuple}
    (hm : ∀ message ∈ t.messages, message.Tellable C) (h : s.contents = d) :
    (execute P t).Attains (ndbContract C) s (fun s' prepared =>
      s'.contents = d ∧ ∀ state ∈ prepared, Building d state.transaction state.operations s'
        ∧ List.Forall₂ (Realizes C) t.messages state.operations) := by
  have hopened : Opened d none [] s := ⟨h, rfl⟩
  refine (executeMessages_attains P hm t hopened).bind ?_
  rintro s' last ⟨hcontents, hlast⟩
  split
  · next transaction operations =>
    obtain ⟨hopened', more, hmore, hall⟩ := hlast _ rfl
    rw [List.nil_append] at hmore
    subst hmore
    refine Prog.Attains.perform_bind (fun _ _ => Prog.attains_pure ⟨hcontents, ?_⟩)
    intro state hstate
    obtain rfl := Option.some.inj hstate
    exact ⟨hopened'.2, hall⟩
  · exact Prog.attains_pure ⟨hcontents, fun _ hstate => nomatch hstate⟩

end NDBMessageExecutor

/-- **A transaction that is handed over asks for what its messages ask for.**
In every run of a tuple that ends with a transaction prepared, NDB knows of
this transaction one operation for each message, in their order, and of each
exactly what the message asks for; and it has not committed anything. -/
theorem execute_tells {P : Protobuf} {t : FrameMessagesTuple}
    (hm : ∀ message ∈ t.messages, message.Tellable C) {s : NdbState C} {trace : Trace}
    {state : NdbTransactionState} (hrun : (execute P t).Runs trace (.ok (some state)))
    (hndb : (ndbContract C).Admitted s trace) :
    let s' := (ndbContract C).after s trace
    List.Forall₂ (Tells C) t.messages ((s'.members state.transaction).map s'.told)
      ∧ s'.contents = s.contents := by
  obtain ⟨_, ho, hcontents, hprepared⟩ := execute_attains P hm rfl trace _ hrun hndb
  obtain rfl := Except.ok.inj ho
  obtain ⟨hbuilding, hall⟩ := hprepared state rfl
  refine ⟨?_, hcontents⟩
  have htold : (state.operations.map (·.operation.pointer)).map
      ((ndbContract C).after s trace).told = state.operations.map Told.of := by
    rw [List.map_map]
    exact List.map_congr_left hbuilding.told
  rw [hbuilding.members_eq, htold, List.forall₂_map_right_iff]
  exact hall.imp (fun _ _ h => h.2)

/-- The store `t`, whose values compare by their bytes. -/
def oneCatalog : Catalog where
  table name := if name = ascii "t" then some oneRow.table else none
  code _ _ value := value

/-- NDB before anything has been written to it. -/
def NdbState.empty (C : Catalog) : NdbState C :=
  ⟨fun _ => .empty, fun _ => .new [], fun _ => [], []⟩

/-- NDB makes the operations 1 and 2, and a record for each column. -/
def answering : (c : Call) → Answer c
  | .getNdbOperation _ _ => some 1
  | .getNdbScanOperation _ _ => some 2
  | .getValue _ columnNo => some columnNo
  | c => succeeding oneRow.table c

/-- A `SET` and a scan for what it sets. -/
def setAndScan : FrameMessagesTuple :=
  ⟨ascii "x", ascii "a", [.set ⟨[⟨ascii "t"⟩], [condition (ascii "k") (ascii "1")],
      [condition (ascii "v") (ascii "3")]⟩,
    .get ⟨[⟨ascii "t"⟩], [], [condition (ascii "v") (ascii "3")]⟩]⟩

/-- What NDB knows at the end. -/
theorem execute_tells_setAndScan :
    let run := (execute wireFormat setAndScan).run answering
    let s' := (ndbContract oneCatalog).after (NdbState.empty oneCatalog) run.1
    List.Forall₂ (Tells oneCatalog) setAndScan.messages ((s'.members 0).map s'.told)
      ∧ s'.contents = (NdbState.empty oneCatalog).contents := by
  intro run s'
  have hrun := Prog.runs_run answering (execute wireFormat setAndScan)
  obtain ⟨state, hstate, htransaction⟩ : ∃ state, run.2 = .ok (some state)
      ∧ state.transaction = 0 := ⟨_, rfl, rfl⟩
  rw [show ((execute wireFormat setAndScan).run answering).2 = .ok (some state) from hstate]
    at hrun
  have htells := execute_tells (C := oneCatalog) (s := NdbState.empty oneCatalog) ?_ hrun ?_
  · rw [htransaction] at htells
    exact htells
  · refine List.forall_mem_cons.mpr ⟨List.cons_ne_nil _ _, List.forall_mem_singleton.mpr ?_⟩
    refine ⟨⟨ascii "t"⟩, rfl, fun table htable _ => List.forall_mem_singleton.mpr ?_⟩
    obtain rfl : oneRow.table = table := Option.some.inj htable
    decide
  · -- both operations are new ones, and so are both records
    have hmake : ∀ (s : NdbState oneCatalog) (p : Nat), p ∉ s.members 0 →
        s.MayMake 0 (ascii "t") (some p) :=
      fun s p hnew p' hp => ⟨rfl, Option.some.inj hp ▸ hnew⟩
    have hsecond : (2 : Nat) ∉ [1] := by decide
    have hrecord : (1 : Nat) ∉ [0] := by decide
    exact ⟨rfl, trivial, hmake _ 1 List.not_mem_nil, trivial, trivial, trivial, rfl,
      hmake _ 2 hsecond, trivial, trivial, trivial, trivial, List.not_mem_nil, hrecord, trivial,
      trivial⟩

end VoloDB
