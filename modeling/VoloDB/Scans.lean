import VoloDB.MessageCodec
import VoloDB.TupleReach

/-!
# Scans

A scan of a table gets a filter, one comparison per value column of its
`GET`, and is read row by row in the callback of its transaction.

Neither side looks at everything it is given. The filter takes the number of
a column from the pointer `getColumn` returns, which is null for a name the
table does not have (`attachesOrRejects_iff`); and the loop over the rows
ends with the first answer that is not a row, be it the end of the data or
an error (`reportsScans_iff`). What the rows of a reply are is said in
`Reading`.
-/

namespace VoloDB

open Interaction NDBMessageExecutor

/-! ## The filter -/

/-- The comparison a value column asks for: its number and its value. -/
def Compares (tableInfo : Table) (column : ColumnValue) (comparison : Nat × Bytes) : Prop :=
  tableInfo.getColumn (cStr column.name) = some comparison.1 ∧ comparison.2 = column.value

/-- A comparison that NDB accepts. -/
def comparisonEvent (pointer : Nat) (comparison : Nat × Bytes) : Event Answer :=
  ⟨.filterCmp pointer comparison.1 comparison.2, ReturnCode.ok⟩

/-- **A filter group that is begun and ended once**, around the given
comparisons. -/
def filterGroup (pointer : Nat) (comparisons : List (Nat × Bytes)) : Trace :=
  ⟨.filterBegin pointer, ReturnCode.ok⟩
    :: (comparisons.map (comparisonEvent pointer) ++ [⟨.filterEnd pointer, ReturnCode.ok⟩])

/-- **The conditions are attached, all of them, or the operation is
rejected.** -/
def AttachesOrRejects (tableInfo : Table) (value : List ColumnValue) : Prop :=
  ∀ ndbOperation, (setEqualValue value ndbOperation tableInfo).Ensures (fun trace o =>
    (∃ comparisons, List.Forall₂ (Compares tableInfo) value comparisons
      ∧ trace = filterGroup ndbOperation.pointer comparisons
      ∧ o = .ok (some { ndbOperation with filter := ndbOperation.filter ++ comparisons }))
    ∨ o = .ok none)

variable {tableInfo : Table}

/-- **The loop over columns the table has.** -/
theorem setComparisons_ensures {value : List ColumnValue}
    (h : ∀ column ∈ value, tableInfo.getColumn (cStr column.name) ≠ none)
    (ndbOperation : NdbOperation) :
    (setComparisons tableInfo value ndbOperation).Ensures (fun trace o =>
      (∃ comparisons, List.Forall₂ (Compares tableInfo) value comparisons
        ∧ trace = comparisons.map (comparisonEvent ndbOperation.pointer)
        ∧ o = .ok (some { ndbOperation with filter := ndbOperation.filter ++ comparisons }))
      ∨ o = .ok none) := by
  induction value generalizing ndbOperation with
  | nil =>
    refine Prog.ensures_pure.mpr (Or.inl ⟨[], .nil, rfl, ?_⟩)
    rw [List.append_nil]
  | cons column value ih =>
    obtain ⟨columnNo, hcolumn⟩ := Option.ne_none_iff_exists'.mp (h column List.mem_cons_self)
    unfold setComparisons
    rw [hcolumn]
    refine Prog.ensures_call.mpr (fun res => ?_)
    cases res with
    | failed => exact Prog.ensures_pure.mpr (Or.inr rfl)
    | ok =>
      refine (ih (fun c hc => h c (List.mem_cons_of_mem column hc)) _).mono ?_
      rintro trace o (⟨comparisons, hcompares, rfl, rfl⟩ | rfl)
      · refine Or.inl ⟨(columnNo, column.value) :: comparisons, .cons ⟨hcolumn, rfl⟩ hcompares,
          rfl, ?_⟩
        simp
      · exact Or.inr rfl

/-- Columns the table has are attached, or the operation is rejected. -/
theorem attachesOrRejects_of_known {value : List ColumnValue}
    (h : ∀ column ∈ value, tableInfo.getColumn (cStr column.name) ≠ none) :
    AttachesOrRejects tableInfo value := by
  intro ndbOperation
  refine Prog.ensures_call.mpr (fun res => ?_)
  cases res with
  | failed => exact Prog.ensures_pure.mpr (Or.inr rfl)
  | ok =>
    refine (setComparisons_ensures h ndbOperation).bind ?_ ?_
    · rintro trace f (⟨comparisons, -, -, ho⟩ | ho)
      · exact absurd ho (by simp)
      · exact absurd ho (by simp)
    · rintro front compared (⟨comparisons, hcompares, rfl, ho⟩ | ho)
      · obtain rfl := Except.ok.inj ho
        refine Prog.ensures_call.mpr (fun res => ?_)
        cases res with
        | failed => exact Prog.ensures_pure.mpr (Or.inr rfl)
        | ok => exact Prog.ensures_pure.mpr (Or.inl ⟨comparisons, hcompares, rfl, rfl⟩)
      · obtain rfl := Except.ok.inj ho
        exact Prog.ensures_pure.mpr (Or.inr rfl)

/-- **A column the table does not have** is reached where NDB accepts the
comparisons before it. -/
theorem outcome_setComparisons_nullColumn {value : List ColumnValue}
    (h : ∃ column ∈ value, tableInfo.getColumn (cStr column.name) = none)
    (ndbOperation : NdbOperation) :
    (setComparisons tableInfo value ndbOperation).outcome (succeeding tableInfo)
      = .error .nullColumn := by
  induction value generalizing ndbOperation with
  | nil =>
    obtain ⟨column, hmem, -⟩ := h
    exact absurd hmem List.not_mem_nil
  | cons column value ih =>
    unfold setComparisons
    cases hcolumn : tableInfo.getColumn (cStr column.name) with
    | none => rfl
    | some columnNo =>
      refine ih ?_ _
      obtain ⟨c, hmem, hnone⟩ := h
      rcases List.mem_cons.mp hmem with rfl | hmem
      · exact absurd (hcolumn.symm.trans hnone) (Option.some_ne_none columnNo)
      · exact ⟨c, hmem, hnone⟩

/-- Conditions that are attached or rejected are on columns the table has. -/
theorem AttachesOrRejects.known {value : List ColumnValue}
    (h : AttachesOrRejects tableInfo value) :
    ∀ column ∈ value, tableInfo.getColumn (cStr column.name) ≠ none := by
  by_contra hunknown
  push Not at hunknown
  have hnull : (setEqualValue value (NdbOperation.new 0 [] .scan) tableInfo).outcome
      (succeeding tableInfo) = .error .nullColumn := by
    unfold setEqualValue
    rw [Prog.outcome_bind, Prog.outcome_perform]
    show Prog.outcome _ (_ >>= _) = _
    rw [Prog.outcome_bind, outcome_setComparisons_nullColumn hunknown]
  have hrun := h (NdbOperation.new 0 [] .scan) _ _ (Prog.runs_run (succeeding tableInfo) _)
  rw [show (Prog.run _ _).2 = _ from hnull] at hrun
  obtain ⟨comparisons, -, -, ho⟩ | ho := hrun
  · exact absurd ho (by simp)
  · exact absurd ho (by simp)

/-- **The conditions are attached or rejected exactly when the table has all
columns they name.** -/
theorem attachesOrRejects_iff (tableInfo : Table) (value : List ColumnValue) :
    AttachesOrRejects tableInfo value
      ↔ ∀ column ∈ value, tableInfo.getColumn (cStr column.name) ≠ none :=
  ⟨AttachesOrRejects.known, attachesOrRejects_of_known⟩

/-- **A condition on a column the table does not have.** -/
theorem not_attachesOrRejects_unknown :
    ¬ AttachesOrRejects (Table.without (ascii "v"))
      [⟨ascii "v", some .int32, none, none, [1, 0, 0, 0]⟩] :=
  fun h => h.known _ List.mem_cons_self (Table.getColumn_without (ascii "v"))

/-! ## The callback of a committed transaction -/

/-- **The run of the callback of a committed transaction**: the results are
read, the transaction is closed, and the reply is sent; unless a row that is
read cannot be shown, which ends the server before the reply. -/
theorem ndbExecuteCallback_ensures (P : Protobuf) (state : NdbTransactionState) :
    (ndbExecuteCallback P .ok state).Ensures (fun trace o =>
      (∃ reads results, o = .ok () ∧ ResultsOf state.operations reads results
        ∧ trace = reads ++ [⟨.close state.transaction, ()⟩, ⟨.send state.identifier
            (replyBytes P { makeResult state.transactionID with result := results }), ()⟩])
      ∨ o = .error .columnType ∧ ReadsUnknown anyStore state.operations trace
        ∧ replies trace = []) := by
  have hprep := (prepares_of_operates (operates_operationResults (F := fun _ => True)
    state.operations trivial)).ensures
  refine ((operationResults_ensures state.operations).and hprep).bind ?_ ?_
  · rintro trace f ⟨⟨results, ho, -⟩ | ⟨ho, hunknown⟩, hprep, -⟩
    · exact absurd ho (by simp)
    · exact Or.inr ⟨congrArg Except.error (Except.error.inj ho), hunknown,
        replies_of_isPreparation hprep⟩
  · rintro reads results ⟨⟨_, ho, hresults⟩ | ⟨ho, -⟩, -⟩
    · obtain rfl := Except.ok.inj ho
      refine Prog.ensures_call.mpr (fun _ => Prog.ensures_call.mpr (fun _ => ?_))
      exact Prog.ensures_pure.mpr (Or.inl ⟨reads, results, rfl, hresults, rfl⟩)
    · exact absurd ho (by simp)

/-! ## Scans that fail -/

/-- Some scan has ended with an error. -/
def ScanFailed (trace : Trace) : Prop :=
  ∃ pointer, ∃ cursor : Cursor,
    (⟨.nextResult pointer, cursor⟩ : Event Answer) ∈ trace ∧ cursor.ending = .failed

variable (P : Protobuf)

/-- **The reply tells how the scans went**: it is one, and tells an error
unless every scan was read to its end and all rows are in it. -/
def ReportsScans (state : NdbTransactionState) (trace : Trace) : Prop :=
  ∃ result, replies trace = [(state.identifier, replyBytes P result)]
    ∧ (result.errorCode = none →
        ¬ ScanFailed trace
          ∧ ∃ reads rest, trace = reads ++ rest
            ∧ ResultsOf state.operations reads result.result)

variable {P}

/-- The reply of the callback, which never tells an error. -/
theorem ReportsScans.not_scanFailed {state : NdbTransactionState} {trace : Trace}
    {o : Except Fault Unit} (hrun : (ndbExecuteCallback P .ok state).Runs trace o)
    (h : ReportsScans P state trace) :
    ¬ ScanFailed trace ∧ ¬ ReadsUnknown anyStore state.operations trace := by
  obtain ⟨result, hreplies, hcomplete⟩ := h
  obtain ⟨reads, results, -, hresults, rfl⟩ | ⟨-, -, hnone⟩ :=
    ndbExecuteCallback_ensures P state trace o hrun
  · rw [replies_append, replies_of_isPreparation hresults.isPreparation] at hreplies
    have hbytes : replyBytes P { makeResult state.transactionID with result := results }
        = replyBytes P result := by
      have hpair := (List.cons.inj hreplies).1
      exact (Prod.mk.inj hpair).2
    have hresult := replyBytes_injective P hbytes
    exact ⟨(hcomplete (hresult ▸ rfl)).1, hresults.not_readsUnknown _⟩
  · rw [hnone] at hreplies
    exact absurd hreplies (List.cons_ne_nil _ _).symm

variable (P)

/-- **The reply tells how the scans went exactly when none of them failed**, and
every row that was read has columns of the types the protocol has. -/
theorem reportsScans_iff (state : NdbTransactionState) :
    (ndbExecuteCallback P .ok state).Ensures (fun trace _ =>
      ReportsScans P state trace
        ↔ ¬ ScanFailed trace ∧ ¬ ReadsUnknown anyStore state.operations trace) := by
  intro trace o hrun
  refine ⟨ReportsScans.not_scanFailed hrun, fun ⟨hread, hknown⟩ => ?_⟩
  obtain ⟨reads, results, -, hresults, rfl⟩ | ⟨-, hunknown, -⟩ :=
    ndbExecuteCallback_ensures P state trace o hrun
  · refine ⟨{ makeResult state.transactionID with result := results }, ?_, fun _ => ?_⟩
    · rw [replies_append, replies_of_isPreparation hresults.isPreparation]
      rfl
    · exact ⟨hread, reads, _, rfl, hresults⟩
  · exact absurd hunknown hknown

/-- The one row of a scan that fails after it. -/
def lastRow : Snapshot := fun _ => ⟨ascii "k", some .bool, [1]⟩

/-- Everything succeeds, but a scan fails after one row. -/
def failingScan : (c : Call) → Answer c
  | .nextResult _ => (⟨[lastRow], .failed⟩ : Cursor)
  | c => succeeding (Table.ofNames []) c

/-- **One row, and then an error**: the row is sent as the whole answer. -/
theorem not_reportsScans_oneRow :
    let scan : OperationState := ⟨.get, NdbOperation.new 0 (ascii "t") .scan, [0]⟩
    let state : NdbTransactionState := ⟨0, ascii "x", ascii "c", [scan]⟩
    ¬ (ndbExecuteCallback wireFormat .ok state).Ensures (fun trace _ =>
      ReportsScans wireFormat state trace) := by
  intro scan state h
  have hrun := Prog.runs_run failingScan (ndbExecuteCallback wireFormat .ok state)
  refine ((h _ _ hrun).not_scanFailed hrun).1 ?_
  exact ⟨0, ⟨[lastRow], .failed⟩, List.mem_cons_self, rfl⟩

end VoloDB
