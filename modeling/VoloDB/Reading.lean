import Mathlib.Data.List.Forall2
import VoloDB.ExecutorRuns

/-!
# Reading the rows of a transaction

The callback of a committed transaction makes a result of every operation,
and of a `GET` the rows of its scan, or the one row of its key. A row is a
list of column values, and each of them has the name, the type and the bytes
of a record NDB has filled in. `Row.Shows` says this of a row by itself, and
`ResultsOf` says it of the results, beside the calls that read them.

The type of a record is a number of NDB's own, which has more types than the
protocol. `set_type` is given this number as it is, and asserts that it is
one of `Column.Type`: a record of another type (`ShowsUnknown`) ends the
server where its row would be put into the result. `ReadsUnknown` is what
the reads of a transaction look like then, and `operationResults_ensures`
that there is no other way for them to go wrong.
-/

namespace VoloDB

open Interaction NDBMessageExecutor

/-! ## Rows -/

/-- **A column value shows a record**: it has the record's name, its type,
which the protocol has, and its bytes, and carries no flags. -/
structure ColumnValue.Shows (column : ColumnValue) (record : ColumnRecord) : Prop where
  name_eq : column.name = record.name
  type_eq : column.type = record.type
  known : record.type ≠ none
  primaryKey_eq : column.primaryKey = none
  distributionKey_eq : column.distributionKey = none
  value_eq : column.value = record.value

/-- **A row shows the records of an operation**: it has a column for each of
them, in their order. -/
def Row.Shows (row : Row) (columnValues : List RecAttr) (records : Snapshot) : Prop :=
  List.Forall₂ (fun record column => ColumnValue.Shows column (records record)) columnValues
    row.column

/-- One of the records is of a type that the protocol does not have. -/
def ShowsUnknown (columnValues : List RecAttr) (records : Snapshot) : Prop :=
  ∃ record ∈ columnValues, (records record).type = none

instance (columnValues : List RecAttr) (records : Snapshot) :
    Decidable (ShowsUnknown columnValues records) :=
  inferInstanceAs (Decidable (∃ record ∈ columnValues, (records record).type = none))

theorem columnOfRecord_eq_some_iff {record : ColumnRecord} {column : ColumnValue} :
    columnOfRecord record = some column ↔ column.Shows record := by
  unfold columnOfRecord
  cases htype : record.type with
  | none => exact iff_of_false (Option.some_ne_none column ·.symm) (·.known htype)
  | some type =>
    refine Option.some_inj.trans ⟨fun h => ?_, fun h => ?_⟩
    · subst h
      exact ⟨rfl, htype.symm, htype ▸ Option.some_ne_none type, rfl, rfl, rfl⟩
    · obtain ⟨name, type', primaryKey, distributionKey, value⟩ := column
      exact (ColumnValue.mk.injEq ..).mpr ⟨h.name_eq.symm, (h.type_eq.trans htype).symm,
        h.primaryKey_eq.symm, h.distributionKey_eq.symm, h.value_eq.symm⟩

/-- A list is taken through a partial function when every member is, and then
the values are in the order of the list. -/
theorem mapM_eq_some_iff {α β : Type} {f : α → Option β} {l : List α} {l' : List β} :
    l.mapM f = some l' ↔ List.Forall₂ (fun a b => f a = some b) l l' := by
  induction l generalizing l' with
  | nil =>
    rw [List.mapM_nil, List.forall₂_nil_left_iff]
    exact ⟨fun h => (Option.some.inj h).symm, fun h => h ▸ rfl⟩
  | cons a l ih =>
    rw [List.mapM_cons, List.forall₂_cons_left_iff]
    constructor
    · intro h
      obtain ⟨b, hb, h⟩ := Option.bind_eq_some_iff.mp h
      obtain ⟨bs, hbs, h⟩ := Option.bind_eq_some_iff.mp h
      exact ⟨b, bs, hb, ih.mp hbs, (Option.some.inj h).symm⟩
    · rintro ⟨b, bs, hb, hbs, rfl⟩
      rw [hb, ih.mpr hbs]
      rfl

theorem mapM_eq_none_iff {α β : Type} {f : α → Option β} {l : List α} :
    l.mapM f = none ↔ ∃ a ∈ l, f a = none := by
  induction l with
  | nil => simp
  | cons a l ih =>
    rw [List.mapM_cons, List.exists_mem_cons_iff, ← ih]
    cases f a with
    | none => simp
    | some b => cases l.mapM f <;> simp

/-- **The row is the one that shows the records.** -/
theorem addRecordToResult_eq_some_iff {columnValues : List RecAttr} {records : Snapshot}
    {row : Row} :
    addRecordToResult columnValues records = some row ↔ row.Shows columnValues records := by
  unfold addRecordToResult Row.Shows
  rw [Option.map_eq_some_iff]
  constructor
  · rintro ⟨columns, hcolumns, rfl⟩
    refine (mapM_eq_some_iff.mp hcolumns).imp (fun record column h => ?_)
    exact columnOfRecord_eq_some_iff.mp h
  · intro h
    refine ⟨row.column, mapM_eq_some_iff.mpr (h.imp (fun record column hshows => ?_)), rfl⟩
    exact columnOfRecord_eq_some_iff.mpr hshows

/-- There is no row exactly when a record is of a type the protocol does not
have. -/
theorem addRecordToResult_eq_none_iff {columnValues : List RecAttr} {records : Snapshot} :
    addRecordToResult columnValues records = none ↔ ShowsUnknown columnValues records := by
  unfold addRecordToResult ShowsUnknown
  rw [Option.map_eq_none_iff, mapM_eq_none_iff]
  have hcolumn : ∀ record : ColumnRecord, columnOfRecord record = none ↔ record.type = none := by
    intro record
    unfold columnOfRecord
    cases record.type <;> simp
  simp only [hcolumn]

/-! ## The results of the operations -/

/-- **What is read for an operation, and the result made of it**: nothing
for an operation that is no `GET`, the records of its row for a read by the
key, and every row of the cursor for a scan. -/
inductive ResultOf (operation : OperationState) : Trace → OperationResult → Prop where
  | written (h : operation.type ≠ .get) : ResultOf operation [] ⟨[], operation.type⟩
  | row (h : operation.type = .get) (haccess : operation.operation.access.isScan = false)
      (records : Snapshot) (row : Row) (hrow : row.Shows operation.columnValues records) :
      ResultOf operation [⟨.records operation.operation.pointer, records⟩]
        ⟨[row], operation.type⟩
  | scan (h : operation.type = .get) (haccess : operation.operation.access.isScan = true)
      (cursor : Cursor) (rows : List Row)
      (hrows : List.Forall₂ (fun records row => Row.Shows row operation.columnValues records)
        cursor.rows rows) :
      ResultOf operation [⟨.nextResult operation.operation.pointer, cursor⟩]
        ⟨rows, operation.type⟩

/-- **One result per operation**, in their order. -/
inductive ResultsOf : List OperationState → Trace → List OperationResult → Prop where
  | nil : ResultsOf [] [] []
  | cons {operation : OperationState} {operations : List OperationState} {front rest : Trace}
      {result : OperationResult} {results : List OperationResult}
      (head : ResultOf operation front result) (tail : ResultsOf operations rest results) :
      ResultsOf (operation :: operations) (front ++ rest) (result :: results)

/-- The rows an event has read. -/
def rowsRead : Event Answer → List Snapshot
  | ⟨.records _, records⟩ => [records]
  | ⟨.nextResult _, cursor⟩ => cursor.rows
  | _ => []

/-- **The reads of a transaction meet a type the protocol does not have**, for
an operation on one of these stores: each `GET` is read by one call, and a row
of one of these calls has a record of such a type. -/
def ReadsUnknown (stores : Bytes → Prop) : List OperationState → Trace → Prop
  | [], _ => False
  | operation :: operations, trace =>
    if operation.type = .get then
      match trace with
      | [] => False
      | e :: rest =>
        (stores operation.operation.storeName
            ∧ ∃ records ∈ rowsRead e, ShowsUnknown operation.columnValues records)
          ∨ ReadsUnknown stores operations rest
    else
      ReadsUnknown stores operations trace

/-- **What an event has read has known types**: those of the protocol, in every
record of every row. -/
def ShowsKnown (e : Event Answer) : Prop :=
  ∀ records ∈ rowsRead e, ∀ record, (records record).type ≠ none

/-- Every store. -/
abbrev anyStore : Bytes → Prop := fun _ => True

/-- **The operations of a prepared transaction read these stores alone.** -/
def NdbTransactionState.ReadsOnly (stores : Bytes → Prop) (state : NdbTransactionState) :
    Prop :=
  ∀ o ∈ state.operations, o.type = .get → stores o.operation.storeName

section Reads

variable {stores stores' : Bytes → Prop} {operation : OperationState}
  {operations : List OperationState} {trace front rest : Trace} {result : OperationResult}
  {results : List OperationResult}

theorem readsUnknown_cons_of_get (h : operation.type = .get) (e : Event Answer) :
    ReadsUnknown stores (operation :: operations) (e :: rest)
      ↔ (stores operation.operation.storeName
          ∧ ∃ records ∈ rowsRead e, ShowsUnknown operation.columnValues records)
        ∨ ReadsUnknown stores operations rest := by
  rw [ReadsUnknown, if_pos h]

theorem readsUnknown_cons_of_written (h : operation.type ≠ .get) :
    ReadsUnknown stores (operation :: operations) trace
      ↔ ReadsUnknown stores operations trace := by
  rw [ReadsUnknown.eq_def]
  exact iff_of_eq (if_neg h)

/-- There is nothing to be met before something is read. -/
theorem not_readsUnknown_nil : ¬ ReadsUnknown stores operations [] := by
  induction operations with
  | nil => exact not_false
  | cons operation operations ih =>
    by_cases hget : operation.type = .get
    · simp [ReadsUnknown, hget]
    · rw [readsUnknown_cons_of_written hget]
      exact ih

instance decidableReadsUnknown (stores : Bytes → Prop) [DecidablePred stores] :
    (operations : List OperationState) → (trace : Trace) →
      Decidable (ReadsUnknown stores operations trace)
  | [], _ => isFalse not_false
  | operation :: operations, trace =>
    if h : operation.type = .get then
      match trace with
      | [] => isFalse not_readsUnknown_nil
      | e :: rest =>
        have := decidableReadsUnknown stores operations rest
        decidable_of_iff' _ (readsUnknown_cons_of_get h e)
    else
      have := decidableReadsUnknown stores operations trace
      decidable_of_iff' _ (readsUnknown_cons_of_written h)

/-- There is nothing to be met where all types are known. -/
theorem not_readsUnknown_of_showsKnown (h : ∀ e ∈ trace, ShowsKnown e) :
    ¬ ReadsUnknown stores operations trace := by
  induction operations generalizing trace with
  | nil => exact not_false
  | cons operation operations ih =>
    by_cases hget : operation.type = .get
    · cases trace with
      | nil => exact not_readsUnknown_nil
      | cons e rest =>
        obtain ⟨he, hrest⟩ := List.forall_mem_cons.mp h
        rw [readsUnknown_cons_of_get hget]
        rintro (⟨-, records, hrecords, record, -, hnone⟩ | hunknown)
        · exact he records hrecords record hnone
        · exact ih hrest hunknown
    · rw [readsUnknown_cons_of_written hget]
      exact ih h

/-- What has been met stays met. -/
theorem ReadsUnknown.append (h : ReadsUnknown stores operations front) (rest : Trace) :
    ReadsUnknown stores operations (front ++ rest) := by
  induction operations generalizing front with
  | nil => exact h.elim
  | cons operation operations ih =>
    by_cases hget : operation.type = .get
    · cases front with
      | nil => exact absurd h not_readsUnknown_nil
      | cons e front =>
        rw [List.cons_append, readsUnknown_cons_of_get hget]
        exact ((readsUnknown_cons_of_get hget e).mp h).imp_right ih
    · rw [readsUnknown_cons_of_written hget] at h ⊢
      exact ih h

/-- What is met at some stores is met at others, if the operations are on
these. -/
theorem ReadsUnknown.of_forall (h : ReadsUnknown stores operations trace)
    (hstores : ∀ o ∈ operations, o.type = .get → stores o.operation.storeName →
      stores' o.operation.storeName) : ReadsUnknown stores' operations trace := by
  induction operations generalizing trace with
  | nil => exact h.elim
  | cons operation operations ih =>
    rw [List.forall_mem_cons] at hstores
    by_cases hget : operation.type = .get
    · cases trace with
      | nil => exact absurd h not_readsUnknown_nil
      | cons e rest =>
        rw [readsUnknown_cons_of_get hget] at h ⊢
        exact h.imp (fun h => ⟨hstores.1 hget h.1, h.2⟩) (fun h => ih h hstores.2)
    · rw [readsUnknown_cons_of_written hget] at h ⊢
      exact ih h hstores.2

theorem ResultOf.type_eq (h : ResultOf operation trace result) :
    result.type = operation.type := by
  cases h <;> rfl

/-- **Each result has the type of its operation.** -/
theorem ResultsOf.map_type (h : ResultsOf operations trace results) :
    results.map (·.type) = operations.map (·.type) := by
  induction h with
  | nil => rfl
  | cons head _ ih => rw [List.map_cons, List.map_cons, head.type_eq, ih]

/-- A row that is shown has records of known types alone. -/
theorem Row.Shows.not_showsUnknown {row : Row} {columnValues : List RecAttr}
    {records : Snapshot} (h : row.Shows columnValues records) :
    ¬ ShowsUnknown columnValues records := by
  rw [← addRecordToResult_eq_none_iff, addRecordToResult_eq_some_iff.mpr h]
  exact Option.some_ne_none row

/-- Rows that are all shown have records of known types alone. -/
theorem not_showsUnknown_of_forall₂ {columnValues : List RecAttr} {rows : List Row}
    {read : List Snapshot}
    (h : List.Forall₂ (fun records row => Row.Shows row columnValues records) read rows) :
    ∀ records ∈ read, ¬ ShowsUnknown columnValues records := by
  induction h with
  | nil => exact fun _ hmem => absurd hmem List.not_mem_nil
  | cons hrow _ ih => exact List.forall_mem_cons.mpr ⟨hrow.not_showsUnknown, ih⟩

/-- **What has a result has met no unknown type.** -/
theorem ResultOf.readsUnknown_iff (h : ResultOf operation front result) :
    ReadsUnknown stores (operation :: operations) (front ++ rest)
      ↔ ReadsUnknown stores operations rest := by
  cases h with
  | written h => exact readsUnknown_cons_of_written h
  | row h haccess records row hrow =>
    rw [List.singleton_append, readsUnknown_cons_of_get h]
    refine or_iff_right (fun ⟨_, records', hmem, hunknown⟩ => ?_)
    rw [List.mem_singleton.mp hmem] at hunknown
    exact hrow.not_showsUnknown hunknown
  | scan h haccess cursor rows hrows =>
    rw [List.singleton_append, readsUnknown_cons_of_get h]
    refine or_iff_right (fun ⟨_, records, hmem, hunknown⟩ => ?_)
    exact not_showsUnknown_of_forall₂ hrows records hmem hunknown

theorem ResultsOf.not_readsUnknown (h : ResultsOf operations trace results) (rest : Trace) :
    ¬ ReadsUnknown stores operations (trace ++ rest) := by
  induction h with
  | nil => exact not_false
  | cons head _ ih =>
    rw [List.append_assoc, head.readsUnknown_iff]
    exact ih

/-- Reading results is about operations alone. -/
theorem ResultsOf.isPreparation (h : ResultsOf operations trace results) :
    ∀ e ∈ trace, e.1.isPreparation = true := by
  induction h with
  | nil => exact fun e he => absurd he List.not_mem_nil
  | cons head _ ih =>
    refine fun e he => (List.mem_append.mp he).elim (fun he => ?_) (ih e)
    cases head with
    | written h => exact absurd he List.not_mem_nil
    | row h haccess records row hrow =>
      rw [List.mem_singleton.mp he]
      rfl
    | scan h haccess cursor rows hrows =>
      rw [List.mem_singleton.mp he]
      rfl

end Reads

/-! ## The loop over the operations -/

/-- **One turn**: the result of the operation, or a row that cannot be
shown. -/
theorem operationResult_ensures (operation : OperationState) :
    (operationResult operation).Ensures (fun trace o =>
      (∃ result, o = .ok result ∧ ResultOf operation trace result)
        ∨ o = .error .columnType ∧ ∀ operations,
          ReadsUnknown anyStore (operation :: operations) trace) := by
  unfold operationResult
  by_cases hget : operation.type = .get
  · rw [if_pos hget]
    by_cases hscan : operation.operation.access.isScan = true
    · rw [if_pos hscan, Prog.perform_bind, Prog.ensures_call]
      intro cursor
      split
      · next hrows =>
        refine Prog.ensures_fault.mpr (Or.inr ⟨rfl, fun operations => ?_⟩)
        obtain ⟨records, hmem, hnone⟩ := mapM_eq_none_iff.mp hrows
        refine (readsUnknown_cons_of_get hget _).mpr (Or.inl ?_)
        exact ⟨trivial, records, hmem, addRecordToResult_eq_none_iff.mp hnone⟩
      · next rows hrows =>
        refine Prog.ensures_pure.mpr (Or.inl ⟨_, rfl, .scan hget hscan cursor rows ?_⟩)
        exact (mapM_eq_some_iff.mp hrows).imp (fun _ _ h => addRecordToResult_eq_some_iff.mp h)
    · rw [if_neg hscan, Prog.perform_bind, Prog.ensures_call]
      intro records
      split
      · next hrow =>
        refine Prog.ensures_fault.mpr (Or.inr ⟨rfl, fun operations => ?_⟩)
        refine (readsUnknown_cons_of_get hget _).mpr (Or.inl ?_)
        exact ⟨trivial, records, List.mem_cons_self, addRecordToResult_eq_none_iff.mp hrow⟩
      · next row hrow =>
        refine Prog.ensures_pure.mpr (Or.inl ⟨_, rfl, ?_⟩)
        exact .row hget (Bool.eq_false_iff.mpr hscan) records row
          (addRecordToResult_eq_some_iff.mp hrow)
  · rw [if_neg hget]
    exact Prog.ensures_pure.mpr (Or.inl ⟨_, rfl, .written hget⟩)

/-- **The loop over the operations** ends with their results, or at a row
that cannot be shown. -/
theorem operationResults_ensures (operations : List OperationState) :
    (operationResults operations).Ensures (fun trace o =>
      (∃ results, o = .ok results ∧ ResultsOf operations trace results)
        ∨ o = .error .columnType ∧ ReadsUnknown anyStore operations trace) := by
  induction operations with
  | nil => exact Prog.ensures_pure.mpr (Or.inl ⟨[], rfl, .nil⟩)
  | cons operation operations ih =>
    refine (operationResult_ensures operation).bind ?_ ?_
    · rintro trace f (⟨result, ho, -⟩ | ⟨ho, hunknown⟩)
      · exact absurd ho (by simp)
      · exact Or.inr ⟨congrArg Except.error (Except.error.inj ho), hunknown operations⟩
    · rintro front _ (⟨result, ho, hresult⟩ | ⟨ho, -⟩)
      · obtain rfl := Except.ok.inj ho
        refine ih.bind ?_ ?_
        · rintro rest f (⟨results, ho, -⟩ | ⟨ho, hunknown⟩)
          · exact absurd ho (by simp)
          · exact Or.inr ⟨congrArg Except.error (Except.error.inj ho),
              hresult.readsUnknown_iff.mpr hunknown⟩
        · rintro rest _ (⟨results, ho, hresults⟩ | ⟨ho, -⟩)
          · obtain rfl := Except.ok.inj ho
            refine Prog.ensures_pure.mpr (Or.inl ⟨_, rfl, ?_⟩)
            rw [List.append_nil]
            exact .cons hresult hresults
          · exact absurd ho (by simp)
      · exact absurd ho (by simp)

/-! ## The transactions of a run -/

/-- The operations of the transaction an event commits. -/
def committedBy : Event Answer → List OperationState
  | ⟨.callback state, .ok⟩ => state.operations
  | _ => []

/-- **A run meets a type the protocol does not have**, in the rows of a
transaction it has committed, for an operation on one of these stores. -/
def MeetsUnknown (stores : Bytes → Prop) : Trace → Prop
  | [] => False
  | e :: rest => ReadsUnknown stores (committedBy e) rest ∨ MeetsUnknown stores rest

instance decidableMeetsUnknown (stores : Bytes → Prop) [DecidablePred stores] :
    (trace : Trace) → Decidable (MeetsUnknown stores trace)
  | [] => isFalse not_false
  | e :: rest =>
    have := decidableMeetsUnknown stores rest
    inferInstanceAs (Decidable (ReadsUnknown stores (committedBy e) rest
      ∨ MeetsUnknown stores rest))

theorem committedBy_of_isPreparation {e : Event Answer} (h : e.1.isPreparation = true) :
    committedBy e = [] := by
  obtain ⟨c, r⟩ := e
  cases c with
  | callback state => exact absurd h Bool.false_ne_true
  | _ => rfl

section Meets

variable {stores : Bytes → Prop} {front rest : Trace}

theorem MeetsUnknown.append (h : MeetsUnknown stores front) (rest : Trace) :
    MeetsUnknown stores (front ++ rest) := by
  induction front with
  | nil => exact h.elim
  | cons e front ih => exact h.imp (fun h => h.append rest) ih

theorem MeetsUnknown.anyStore (h : MeetsUnknown stores front) :
    MeetsUnknown anyStore front := by
  induction front with
  | nil => exact h.elim
  | cons e front ih => exact h.imp (fun h => h.of_forall (fun _ _ _ _ => trivial)) ih

/-- Where no store is in question, nothing is met. -/
theorem not_meetsUnknown_false {trace : Trace} : ¬ MeetsUnknown (fun _ => False) trace := by
  have hreads : ∀ operations rest, ¬ ReadsUnknown (fun _ => False) operations rest := by
    intro operations
    induction operations with
    | nil => exact fun _ => not_false
    | cons operation operations ih =>
      intro rest h
      by_cases hget : operation.type = .get
      · cases rest with
        | nil => exact not_readsUnknown_nil h
        | cons e rest =>
          rw [readsUnknown_cons_of_get hget] at h
          exact h.elim (fun h => h.1) (ih rest)
      · exact ih rest ((readsUnknown_cons_of_written hget).mp h)
  induction trace with
  | nil => exact not_false
  | cons e rest ih => exact fun h => h.elim (hreads _ rest) ih

theorem not_meetsUnknown_of_showsKnown {trace : Trace} (h : ∀ e ∈ trace, ShowsKnown e) :
    ¬ MeetsUnknown stores trace := by
  induction trace with
  | nil => exact not_false
  | cons e rest ih =>
    obtain ⟨-, hrest⟩ := List.forall_mem_cons.mp h
    exact fun hmeets => hmeets.elim (not_readsUnknown_of_showsKnown hrest) (ih hrest)

theorem MeetsUnknown.append_left (front : Trace) (h : MeetsUnknown stores rest) :
    MeetsUnknown stores (front ++ rest) := by
  induction front with
  | nil => exact h
  | cons e front ih => exact Or.inr ih

/-- Events that commit nothing do not matter. -/
theorem meetsUnknown_append_iff (h : ∀ e ∈ front, committedBy e = []) :
    MeetsUnknown stores (front ++ rest) ↔ MeetsUnknown stores rest := by
  induction front with
  | nil => exact Iff.rfl
  | cons e front ih =>
    rw [List.cons_append, MeetsUnknown, h e List.mem_cons_self,
      ih (fun e he => h e (List.mem_cons_of_mem _ he))]
    exact or_iff_right not_false

theorem not_meetsUnknown (h : ∀ e ∈ front, committedBy e = []) :
    ¬ MeetsUnknown stores front := by
  rw [← List.append_nil front, meetsUnknown_append_iff h]
  exact not_false

end Meets

end VoloDB
