import VoloDB.TupleReach

/-!
# Which rows a `GET` reads

A `GET` gives conditions on key columns and conditions on other columns,
and is run on one of three access paths: a read by the primary key, a scan
of the prune index, or a scan of the whole table. The path is chosen by the
number of key columns alone, and each path uses one of the two kinds of
conditions: the first two those on key columns, the scan of the table those
on the others.

So the conditions on other columns count only where no key column is given
(`reads_exactly`), which is how the three ways to fetch are documented. A
`GET` with more key columns than the table has is scanned by its value
conditions, and its key conditions are lost; nothing is said about these.
-/

namespace VoloDB

open Interaction NDBMessageExecutor

/-! ## Stores and what NDB reads from them -/

/-- **A store**: its table, its rows, and which row has which value in
which column. How values compare is left open. -/
structure Store (R : Type) where
  table : Table
  rows : List R
  has : R → Bytes → Bytes → Bool

variable {R : Type}

namespace Store

/-- The row satisfies a list of conditions. -/
def satisfies (store : Store R) (conditions : List (Bytes × Bytes)) (row : R) : Bool :=
  conditions.all (fun condition => store.has row condition.1 condition.2)

/-- The row satisfies the comparisons of a scan filter, which name their
columns by number. -/
def passes (store : Store R) (filter : List (Nat × Bytes)) (row : R) : Bool :=
  filter.all (fun comparison =>
    match store.table.columns[comparison.1]? with
    | none => false
    | some column => store.has row column.name comparison.2)

/-- **The rows that satisfy conditions.** -/
def select (store : Store R) (conditions : List (Bytes × Bytes)) : List R :=
  store.rows.filter (store.satisfies conditions)

end Store

/-- **What NDB reads**: the rows an operation comes to yield, in any order.
A read by the primary key yields the rows with that key, a scan of an index
all rows with the given index columns, and a scan with a filter all rows
that pass it. An operation may also yield nothing at all, when it fails. -/
structure NdbReads (store : Store R) where
  reads : NdbOperation → List R → Prop
  of_simpleRead : ∀ operation rows, reads operation rows → operation.access = .simpleRead →
    rows.Perm (store.select operation.equals)
  of_indexScan : ∀ operation rows indexName, reads operation rows →
    operation.access = .indexScan indexName → rows.Perm (store.select operation.equals)
  of_scan : ∀ operation rows, reads operation rows → operation.access = .scan →
    rows.Perm (store.rows.filter (store.passes operation.filter))

/-- An NDB that never fails. -/
def NdbReads.reliable (store : Store R) : NdbReads store where
  reads operation rows := rows = match operation.access with
    | .simpleRead | .indexScan _ => store.select operation.equals
    | .scan => store.rows.filter (store.passes operation.filter)
    | .writeTuple | .deleteTuple => []
  of_simpleRead := by
    rintro operation rows rfl h
    rw [h]
  of_indexScan := by
    rintro operation rows indexName rfl h
    rw [h]
  of_scan := by
    rintro operation rows rfl h
    rw [h]

/-- **The cached descriptions are current**: every lookup that finds a
table finds that of the store. -/
def Current (table : Table) (trace : Trace) : Prop :=
  ∀ e ∈ trace, ∀ found, (∃ name, e = ⟨.cacheGet name, some found⟩
    ∨ e = ⟨.getTable name, some found⟩) → found = table

/-- **A `GET` reads exactly these rows**: whenever it is run and yields
rows, they are those that satisfy the conditions. -/
def ReadsExactly (store : Store R) (ndb : NdbReads store) (operation : GetOperation)
    (conditions : List (Bytes × Bytes)) : Prop :=
  ∀ transaction trace ndbOperation records rows,
    Prog.Runs (executeGet operation transaction) trace (.ok (some (ndbOperation, records))) →
    Current store.table trace → ndb.reads ndbOperation rows →
    rows.Perm (store.select conditions)

/-! ## The operation a path leads to -/

/-- **The operation of each access path**, and what it has been told. -/
inductive PathTo (operation : GetOperation) (table : Table) (o : NdbOperation) : Prop where
  | simpleRead (hpath : operation.primaryKey.length = table.getNoOfPrimaryKeys)
      (haccess : o.access = .simpleRead)
      (hequals : o.equals = columnPairs operation.primaryKey)
  | indexScan (hpath : operation.primaryKey ≠ [])
      (haccess : o.access = .indexScan (ascii "VOLODB_PRUNE_INDEX"))
      (hequals : o.equals = columnPairs operation.primaryKey)
  | scan (hpath : operation.primaryKey = []
        ∨ table.getNoOfPrimaryKeys < operation.primaryKey.length)
      (haccess : o.access = .scan)
      (hfilter : List.Forall₂ (fun column comparison =>
        table.getColumn (cStr column.name) = some comparison.1
          ∧ comparison.2 = column.value) operation.value o.filter)

theorem yields_setComparisons_filter (table : Table) (columns : List ColumnValue)
    (ndbOperation : NdbOperation) :
    YieldsSome (setComparisons table columns ndbOperation) (fun o =>
      ∃ comparisons, o.filter = ndbOperation.filter ++ comparisons
        ∧ List.Forall₂ (fun column comparison =>
            table.getColumn (cStr column.name) = some comparison.1
              ∧ comparison.2 = column.value) columns comparisons) := by
  induction columns generalizing ndbOperation with
  | nil => exact yieldsSome_some ⟨[], (List.append_nil _).symm, .nil⟩
  | cons column columns ih =>
    unfold setComparisons
    cases hc : table.getColumn (cStr column.name) with
    | none => trivial
    | some columnNo =>
      refine Prog.Yields.perform_bind (fun res => ?_)
      cases res with
      | failed => exact yieldsSome_none
      | ok =>
        refine (ih _).mono (fun o h a ha => ?_)
        obtain ⟨comparisons, hfilter, hall⟩ := h a ha
        refine ⟨(columnNo, column.value) :: comparisons, ?_, .cons ⟨hc, rfl⟩ hall⟩
        rw [hfilter, List.append_assoc]
        rfl

theorem yields_setEqualValue_filter (table : Table) (value : List ColumnValue)
    (pointer : Nat) (storeName : Bytes) :
    YieldsSome (setEqualValue value (NdbOperation.new pointer storeName .scan) table) (fun o =>
      List.Forall₂ (fun column comparison =>
        table.getColumn (cStr column.name) = some comparison.1
          ∧ comparison.2 = column.value) value o.filter) := by
  refine Prog.Yields.perform_bind (fun res => ?_)
  cases res with
  | failed => exact yieldsSome_none
  | ok =>
    refine (yields_setComparisons_filter table value _).bind (fun compared h => ?_)
    cases compared with
    | none => exact yieldsSome_none
    | some compared =>
      obtain ⟨comparisons, hfilter, hall⟩ := h compared rfl
      rw [show (NdbOperation.new pointer storeName .scan).filter = [] from rfl,
        List.nil_append] at hfilter
      refine Prog.Yields.perform_bind (fun res => ?_)
      cases res with
      | failed => exact yieldsSome_none
      | ok => exact yieldsSome_some (by rwa [hfilter])

/-- **Where the choice of the path leads.** -/
theorem yields_accessPath_pathTo (operation : GetOperation) (storeName : Bytes)
    (transaction : Nat) (table : Table) :
    YieldsSome (accessPath operation storeName transaction table)
      (PathTo operation table) := by
  have hequal : ∀ pointer access, YieldsSome
      (setEqual operation.primaryKey (NdbOperation.new pointer (cStr storeName) access))
      (fun o => o.access = access ∧ o.equals = columnPairs operation.primaryKey) := by
    intro pointer access
    refine (yields_setEqual operation.primaryKey _).mono (fun o h a ha => ?_)
    rw [h a ha]
    exact ⟨rfl, rfl⟩
  rw [accessPath_eq]
  split
  · next hlen =>
    refine Prog.Yields.perform_bind (fun _ => yields_defineAnd (fun pointer => ?_) _)
    exact (hequal pointer .simpleRead).mono
      (fun o h a ha => .simpleRead hlen (h a ha).1 (h a ha).2)
  · next hlen =>
    split
    · next hfewer =>
      refine Prog.Yields.perform_bind (fun _ => yields_defineAnd (fun pointer => ?_) _)
      refine (hequal pointer _).mono (fun o h a ha => .indexScan ?_ (h a ha).1 (h a ha).2)
      exact fun hnil => hfewer.1 (by rw [hnil]; rfl)
    · next hmore =>
      have hpath : operation.primaryKey = []
          ∨ table.getNoOfPrimaryKeys < operation.primaryKey.length := by
        by_cases hnil : operation.primaryKey = []
        · exact Or.inl hnil
        · have hpos := List.length_pos_of_ne_nil hnil
          exact Or.inr (by omega)
      refine Prog.Yields.perform_bind (fun _ => yields_defineAnd (fun pointer => ?_) _)
      refine (Prog.Yields.and (yields_setEqualValue table operation.value _)
        (yields_setEqualValue_filter table operation.value pointer _)).mono ?_
      exact fun o h a ha => .scan hpath (h.1 a ha).2.1 (h.2 a ha)

/-- What a `GET` does with the table it found. -/
def getThrough (operation : GetOperation) (storeName : Bytes) (transaction : Nat)
    (table : Table) : Exec (Option (NdbOperation × List RecAttr)) := do
  let ndbGetOperation ← accessPath operation storeName transaction table
  match ndbGetOperation with
  | none => return none
  | some ndbGetOperation =>
    let columnValueRecord ←
      getValues ndbGetOperation.pointer (List.range table.getNoOfColumns) []
    match columnValueRecord with
    | none => return none
    | some columnValueRecord => return some (ndbGetOperation, columnValueRecord)

theorem yields_getThrough (operation : GetOperation) (storeName : Bytes) (transaction : Nat)
    (table : Table) : (getThrough operation storeName transaction table).Yields
      (fun o => ∀ r, o = some r → PathTo operation table r.1) :=
  (yields_askRecords table.getNoOfColumns
    (yields_accessPath_pathTo operation storeName transaction table)).mono
    (fun _ h r hr => (h r hr).1)

/-- **The operation of a `GET` is that of a path through the table it
found.** -/
theorem executeGet_ensures (operation : GetOperation) (transaction : Nat) :
    (executeGet operation transaction).Ensures (fun trace o =>
      ∀ r, o = .ok (some r) → ∃ found, PathTo operation found r.1 ∧ ∃ e ∈ trace, ∃ name,
        e = ⟨.cacheGet name, some found⟩ ∨ e = ⟨.getTable name, some found⟩) := by
  unfold executeGet
  cases operation.storeInfo with
  | nil => exact Prog.ensures_fault.mpr (fun r h => by simp at h)
  | cons storeInfo rest =>
    refine (tableInfoOf_returns storeInfo.storeName).bind ?_
    rintro front tableInfo ⟨-, hfound⟩
    cases tableInfo with
    | none => exact Prog.ensures_pure.mpr (fun r h => by simp at h)
    | some table =>
      show (getThrough operation storeInfo.storeName transaction table).Ensures _
      -- what follows makes its calls behind the lookup
      refine (yields_getThrough operation storeInfo.storeName transaction table).ensures.mono
        (fun trace o h r hr => ⟨table, h _ hr r rfl, ?_⟩)
      rcases hfound table rfl with hcache | hdictionary
      · exact ⟨_, List.mem_append_left _ hcache, _, Or.inl rfl⟩
      · exact ⟨_, List.mem_append_left _ hdictionary, _, Or.inr rfl⟩

/-! ## The rows -/

/-- The column of a number that was looked up by a name has the name. -/
theorem Table.name_of_getColumn {table : Table} {name : Bytes} {columnNo : Nat}
    (h : table.getColumn name = some columnNo) :
    ∃ column, table.columns[columnNo]? = some column ∧ column.name = name := by
  obtain ⟨hlt, hname, -⟩ := List.findIdx?_eq_some_iff_getElem.mp h
  exact ⟨table.columns[columnNo], List.getElem?_eq_getElem hlt, by simpa using hname⟩

/-- A filter made of conditions by looking up their columns passes the rows
that satisfy them. -/
theorem Store.passes_eq_satisfies (store : Store R) {columns : List ColumnValue}
    {comparisons : List (Nat × Bytes)}
    (h : List.Forall₂ (fun column comparison =>
      store.table.getColumn (cStr column.name) = some comparison.1
        ∧ comparison.2 = column.value) columns comparisons) (row : R) :
    store.passes comparisons row = store.satisfies (columnPairs columns) row := by
  induction h with
  | nil => rfl
  | @cons column comparison columns comparisons hc _ ih =>
    obtain ⟨columnNo, value⟩ := comparison
    obtain ⟨hno, rfl⟩ := hc
    obtain ⟨c, hget, hname⟩ := Table.name_of_getColumn hno
    unfold Store.passes Store.satisfies at ih ⊢
    rw [columnPairs, List.map_cons, List.all_cons, List.all_cons, ih]
    simp only [hget, hname, columnPairs]

/-- The conditions that count: those on key columns if there are any, and
otherwise those on the others. -/
def countingConditions (operation : GetOperation) : List (Bytes × Bytes) :=
  if operation.primaryKey = [] then columnPairs operation.value
  else columnPairs operation.primaryKey

/-- **A `GET` reads exactly the rows that satisfy the conditions that
count**, as long as it gives no more key columns than the table has. -/
theorem reads_exactly (store : Store R) (ndb : NdbReads store) (operation : GetOperation)
    (h : operation.primaryKey.length ≤ store.table.getNoOfPrimaryKeys) :
    ReadsExactly store ndb operation (countingConditions operation) := by
  intro transaction trace o records rows hrun hcurrent hreads
  obtain ⟨found, hpath, e, he, name, hlookup⟩ :=
    executeGet_ensures operation transaction trace _ hrun (o, records) rfl
  obtain rfl := hcurrent e he found ⟨name, hlookup⟩
  unfold countingConditions
  cases hpath with
  | simpleRead hlen haccess hequals =>
    have hpos := store.table.getNoOfPrimaryKeys_pos
    rw [if_neg (fun hnil => by rw [hnil, List.length_nil] at hlen; omega), ← hequals]
    exact ndb.of_simpleRead o rows hreads haccess
  | indexScan hne haccess hequals =>
    rw [if_neg hne, ← hequals]
    exact ndb.of_indexScan o rows _ hreads haccess
  | scan hpath haccess hfilter =>
    have hnil : operation.primaryKey = [] :=
      hpath.resolve_right (fun hmore => absurd h (by omega))
    rw [if_pos hnil]
    refine (ndb.of_scan o rows hreads haccess).trans (List.Perm.of_eq ?_)
    exact List.filter_congr (fun row _ => store.passes_eq_satisfies hfilter row)

/-! ## A store with one row -/

/-- The store `t`: a key column `k`, a column `v`, and one row, with `1` in
the one and `3` in the other. -/
def oneRow : Store Unit where
  table :=
    { columns := [⟨ascii "k", true⟩, ⟨ascii "v", false⟩]
      version := 0
      primaryKey_pos := by decide
      names_nodup := by decide }
  rows := [()]
  has _ name value := name = ascii "k" && value = ascii "1"
    || name = ascii "v" && value = ascii "3"

/-- A condition on the column of this name. -/
def condition (name value : Bytes) : ColumnValue := ⟨name, none, none, none, value⟩

/-- A `GET` with the key of the row. -/
theorem reads_exactly_oneRow :
    ReadsExactly oneRow (NdbReads.reliable oneRow)
      ⟨[⟨ascii "t"⟩], [condition (ascii "k") (ascii "1")], []⟩
      (countingConditions ⟨[⟨ascii "t"⟩], [condition (ascii "k") (ascii "1")], []⟩) :=
  reads_exactly oneRow (NdbReads.reliable oneRow) _ (by decide)

/-- Where every lookup finds a table, the descriptions are current for
it. -/
theorem current_of_succeeding {table : Table} {trace : Trace}
    (h : ∀ e ∈ trace, e.2 = succeeding table e.1) : Current table trace := by
  rintro e he found ⟨name, rfl | rfl⟩
  · exact Option.some.inj (h _ he)
  · exact Option.some.inj (h _ he)

/-- **Rows that contradict a condition**: a `GET` with the key of the row
and another value yields the row all the same, and so does one with another
key and one key column more than the table has. -/
theorem not_readsExactly_all_conditions :
    ¬ ReadsExactly oneRow (NdbReads.reliable oneRow)
        ⟨[⟨ascii "t"⟩], [condition (ascii "k") (ascii "1")],
          [condition (ascii "v") (ascii "2")]⟩
        [(ascii "k", ascii "1"), (ascii "v", ascii "2")]
      ∧ ¬ ReadsExactly oneRow (NdbReads.reliable oneRow)
        ⟨[⟨ascii "t"⟩], [condition (ascii "k") (ascii "2"), condition (ascii "v") (ascii "3")],
          []⟩
        [(ascii "k", ascii "2"), (ascii "v", ascii "3")] := by
  have hyields : ∀ (operation : GetOperation) (conditions : List (Bytes × Bytes)),
      oneRow.select conditions = [] →
      (∃ o records, (executeGet operation 0).outcome (succeeding oneRow.table)
          = .ok (some (o, records)) ∧ (NdbReads.reliable oneRow).reads o [()]) →
      ¬ ReadsExactly oneRow (NdbReads.reliable oneRow) operation conditions := by
    rintro operation conditions hnone ⟨o, records, ho, hreads⟩ hexact
    have hrun := Prog.runs_run (succeeding oneRow.table) (executeGet operation 0)
    rw [show ((executeGet operation 0).run (succeeding oneRow.table)).2
      = .ok (some (o, records)) from ho] at hrun
    have hperm := hexact 0 _ o records [()] hrun
      (current_of_succeeding (fun _ he => Prog.answer_of_mem_run _ _ he)) hreads
    rw [hnone] at hperm
    exact absurd hperm.eq_nil (List.cons_ne_nil _ _)
  constructor
  · exact hyields _ _ (by decide) ⟨_, _, rfl, rfl⟩
  · exact hyields _ _ (by decide) ⟨_, _, rfl, rfl⟩

end VoloDB
