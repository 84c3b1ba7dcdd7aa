import Mathlib.Data.List.Dedup
import VoloDB.TupleRuns

/-!
# What an environment can bring about

`TupleRuns` bounds what the executor does from above. This is the other
half: the turns that some answers of MySQL and NDB really lead to. An
environment in which everything succeeds adds every manipulation operation
that names a store, provided its table has the columns the operation
compares; one whose table lacks them takes a `GET` through a null pointer;
and one in which everything fails leaves every tuple with an error.
-/

namespace VoloDB

open Interaction FrameUtils NDBMessageProcessor NDBMessageExecutor

/-! ## Tables -/

namespace Table

/-- A table with the given columns and one more, all of them key columns. -/
def ofNames (names : List Bytes) : Table where
  columns := (ascii "k" :: names).dedup.map (fun name => ⟨name, true⟩)
  version := 0
  primaryKey_pos := by
    rw [List.countP_map, List.countP_pos_iff]
    exact ⟨ascii "k", List.mem_dedup.mpr List.mem_cons_self, rfl⟩
  names_nodup := by
    rw [List.map_map]
    exact (List.map_id _).symm ▸ List.nodup_dedup _

theorem isSome_getColumn_ofNames {names : List Bytes} {name : Bytes} (h : name ∈ names) :
    ((ofNames names).getColumn name).isSome = true := by
  unfold getColumn
  rw [List.findIdx?_isSome, List.any_eq_true]
  refine ⟨⟨name, true⟩, List.mem_map.mpr ⟨name, ?_, rfl⟩, by simp⟩
  exact List.mem_dedup.mpr (List.mem_cons_of_mem _ h)

/-- A table whose one column has another name. -/
def without (name : Bytes) : Table where
  columns := [⟨0 :: name, true⟩]
  version := 0
  primaryKey_pos := Nat.one_pos
  names_nodup := List.nodup_singleton _

@[simp] theorem getColumn_without (name : Bytes) : (without name).getColumn name = none := by
  unfold getColumn without
  rw [List.findIdx?_eq_none_iff]
  rintro column hc
  rw [List.mem_singleton.mp hc]
  simp

@[simp] theorem getNoOfPrimaryKeys_without (name : Bytes) :
    (without name).getNoOfPrimaryKeys = 1 := rfl

end Table

/-! ## Two environments -/

/-- Everything succeeds, and every store is this table. -/
def succeeding (table : Table) : (c : Call) → Answer c
  | .query _ => none
  | .cacheGet _ => some table
  | .getTable _ => some table
  | .cacheInsert _ _ => ()
  | .cacheErase _ => ()
  | .startTransaction _ _ => some 0
  | .getNdbOperation _ _ => some 0
  | .getNdbIndexScanOperation _ _ _ => some 0
  | .getNdbScanOperation _ _ => some 0
  | .define _ _ => ()
  | .equal _ _ _ => .ok
  | .setValue _ _ _ => .ok
  | .filterBegin _ => .ok
  | .filterCmp _ _ _ => .ok
  | .filterEnd _ => .ok
  | .getValue _ _ => some 0
  | .getNdbError _ => ⟨0, []⟩
  | .close _ => ()
  | .executeAsynchPrepare _ => ()
  | .pollNdb totalTransactions => [List.replicate totalTransactions 0]
  | .callback _ => .ok
  | .records _ => fun _ => ⟨[], some .bool, []⟩
  | .nextResult _ => ⟨[], .endOfData⟩
  | .send _ _ => ()
  | .take _ => ()

/-- Everything fails. -/
def failing : (c : Call) → Answer c
  | .query _ => some []
  | .cacheGet _ => none
  | .getTable _ => none
  | .cacheInsert _ _ => ()
  | .cacheErase _ => ()
  | .startTransaction _ _ => none
  | .getNdbOperation _ _ => none
  | .getNdbIndexScanOperation _ _ _ => none
  | .getNdbScanOperation _ _ => none
  | .define _ _ => ()
  | .equal _ _ _ => .failed
  | .setValue _ _ _ => .failed
  | .filterBegin _ => .failed
  | .filterCmp _ _ _ => .failed
  | .filterEnd _ => .failed
  | .getValue _ _ => none
  | .getNdbError _ => ⟨0, []⟩
  | .close _ => ()
  | .executeAsynchPrepare _ => ()
  | .pollNdb totalTransactions => [List.replicate totalTransactions 0]
  | .callback _ => .failed
  | .records _ => fun _ => ⟨[], none, []⟩
  | .nextResult _ => ⟨[], .failed⟩
  | .send _ _ => ()
  | .take _ => ()

/-- Where everything fails, nothing is changed. -/
theorem journal_of_failing {trace : Trace} (h : ∀ e ∈ trace, e.2 = failing e.1) :
    journal trace = [] := by
  refine List.flatMap_eq_nil_iff.mpr (fun e he => ?_)
  obtain ⟨c, r⟩ := e
  have hr : r = failing c := h _ he
  subst hr
  cases c <;> rfl

namespace NDBMessageExecutor

variable (P : Protobuf) (table : Table)

/-! ## Operations that succeed -/

theorem outcome_tableInfoOf (cachedName storeName : Bytes) :
    (tableInfoOf cachedName storeName).outcome (succeeding table) = .ok (some table) := by
  simp [tableInfoOf, TableInfoCache.get, succeeding]

theorem outcome_startTransaction (columns : List ColumnValue) (storeName : Bytes) :
    (startTransaction columns storeName).outcome (succeeding table) = .ok (some 0) := by
  unfold startTransaction
  rw [Prog.outcome_bind, outcome_tableInfoOf]
  dsimp only
  split
  · rw [getHint_newHint]
    rfl
  · rfl

theorem outcome_openTransaction (transaction : Option Nat) (columns : List ColumnValue)
    (storeName : Bytes) :
    (openTransaction transaction columns storeName).outcome (succeeding table)
      = .ok (some (transaction.getD 0)) := by
  cases transaction with
  | some t => rfl
  | none => exact outcome_startTransaction table columns storeName

theorem outcome_setEqual (columns : List ColumnValue) (ndbOperation : NdbOperation) :
    ∃ o, (setEqual columns ndbOperation).outcome (succeeding table) = .ok (some o) := by
  induction columns generalizing ndbOperation with
  | nil => exact ⟨_, rfl⟩
  | cons column columns ih => exact ih _

theorem outcome_setValues (columns : List ColumnValue) (ndbOperation : NdbOperation) :
    ∃ o, (setValues columns ndbOperation).outcome (succeeding table) = .ok (some o) := by
  induction columns generalizing ndbOperation with
  | nil => exact ⟨_, rfl⟩
  | cons column columns ih => exact ih _

variable {table}

theorem outcome_setComparisons (columns : List ColumnValue) (ndbOperation : NdbOperation)
    (h : ∀ column ∈ columns, (table.getColumn (cStr column.name)).isSome = true) :
    ∃ o, (setComparisons table columns ndbOperation).outcome (succeeding table)
      = .ok (some o) := by
  induction columns generalizing ndbOperation with
  | nil => exact ⟨_, rfl⟩
  | cons column columns ih =>
    obtain ⟨columnNo, hc⟩ := Option.isSome_iff_exists.mp (h column List.mem_cons_self)
    unfold setComparisons
    rw [hc]
    exact ih _ (fun c hm => h c (List.mem_cons_of_mem column hm))

theorem outcome_setEqualValue (value : List ColumnValue) (ndbOperation : NdbOperation)
    (h : ∀ column ∈ value, (table.getColumn (cStr column.name)).isSome = true) :
    ∃ o, (setEqualValue value ndbOperation table).outcome (succeeding table)
      = .ok (some o) := by
  obtain ⟨o, ho⟩ := outcome_setComparisons value ndbOperation h
  refine ⟨o, ?_⟩
  simp [setEqualValue, succeeding, ho]

theorem outcome_accessPath (table : Table) (operation : GetOperation) (storeName : Bytes)
    (transaction : Nat)
    (h : ∀ column ∈ operation.value, (table.getColumn (cStr column.name)).isSome = true) :
    ∃ o, (accessPath operation storeName transaction table).outcome (succeeding table)
      = .ok (some o) := by
  unfold accessPath
  split
  · obtain ⟨o, ho⟩ := outcome_setEqual table operation.primaryKey _
    exact ⟨o, ho⟩
  · split
    · obtain ⟨o, ho⟩ := outcome_setEqual table operation.primaryKey _
      exact ⟨o, ho⟩
    · obtain ⟨o, ho⟩ := outcome_setEqualValue operation.value _ h
      exact ⟨o, ho⟩

theorem outcome_getValues (table : Table) (pointer : Nat) (columns : List Nat)
    (records : List RecAttr) :
    ∃ r, (getValues pointer columns records).outcome (succeeding table) = .ok (some r) := by
  induction columns generalizing records with
  | nil => exact ⟨_, rfl⟩
  | cons i columns ih => exact ih _

/-- The columns a message compares, by their names. -/
def comparedNames : Message → List Bytes
  | .get operation => operation.value.map (fun column => cStr column.name)
  | _ => []

/-- What `manipulate` does where the store is named and everything
succeeds. -/
theorem outcome_manipulate {storeInfo : List StoreInfo} (hs : storeInfo ≠ [])
    (primaryKey : List ColumnValue) (transaction : Option Nat)
    (add : Nat → Exec (Option OperationState)) {o : Except Fault (Option OperationState)}
    (ho : (add (transaction.getD 0)).outcome (succeeding table) = o) :
    (manipulate storeInfo primaryKey transaction add).outcome (succeeding table)
      = o.map (fun newOperation => (some (transaction.getD 0), newOperation)) := by
  obtain ⟨store, rest, rfl⟩ := List.exists_cons_of_ne_nil hs
  subst ho
  unfold manipulate
  rw [storeInfo0, Prog.pure_bind, Prog.outcome_bind, outcome_openTransaction]
  dsimp only
  rw [Prog.outcome_bind]
  cases (add (transaction.getD 0)).outcome (succeeding table) <;> rfl

/-- **A manipulation operation that names a store can be added**: it is
where everything succeeds and the table has the columns. -/
theorem outcome_executeManipulation (message : Message) (transaction : Option Nat)
    (hm : message.isManipulation = true) (hs : message.storeInfos ≠ []) :
    ∃ o, (executeManipulation message transaction).outcome
        (succeeding (Table.ofNames (comparedNames message)))
      = .ok (some (transaction.getD 0), some o) := by
  cases message with
  | set operation =>
    obtain ⟨store, rest, hstore⟩ := List.exists_cons_of_ne_nil hs
    obtain ⟨e, he⟩ := outcome_setEqual (Table.ofNames (comparedNames (.set operation)))
      operation.primaryKey (NdbOperation.new 0 (cStr store.storeName) .writeTuple)
    obtain ⟨v, hv⟩ := outcome_setValues (Table.ofNames (comparedNames (.set operation)))
      operation.value e
    refine ⟨⟨.set, v, []⟩, outcome_manipulate hs _ transaction _ (o := .ok (some _)) ?_⟩
    rw [Prog.outcome_bind, executeSet, show operation.storeInfo = store :: rest from hstore,
      storeInfo0]
    simp [succeeding, setEqualPrimaryKey, he, hv]
  | delete operation =>
    obtain ⟨store, rest, hstore⟩ := List.exists_cons_of_ne_nil hs
    obtain ⟨e, he⟩ := outcome_setEqual (Table.ofNames (comparedNames (.delete operation)))
      operation.primaryKey (NdbOperation.new 0 (cStr store.storeName) .deleteTuple)
    refine ⟨⟨.delete, e, []⟩, outcome_manipulate hs _ transaction _ (o := .ok (some _)) ?_⟩
    rw [Prog.outcome_bind, executeDelete, show operation.storeInfo = store :: rest from hstore,
      storeInfo0]
    simp [succeeding, setEqualPrimaryKey, he]
  | get operation =>
    obtain ⟨store, rest, hstore⟩ := List.exists_cons_of_ne_nil hs
    obtain ⟨e, he⟩ := outcome_accessPath (Table.ofNames (comparedNames (.get operation)))
      operation store.storeName (transaction.getD 0)
      (fun column hc => Table.isSome_getColumn_ofNames (List.mem_map.mpr ⟨column, hc, rfl⟩))
    obtain ⟨r, hr⟩ := outcome_getValues (Table.ofNames (comparedNames (.get operation)))
      e.pointer (List.range (Table.ofNames (comparedNames (.get operation))).getNoOfColumns) []
    refine ⟨⟨.get, e, r⟩, outcome_manipulate hs _ transaction _ (o := .ok (some _)) ?_⟩
    rw [Prog.outcome_bind, executeGet, show operation.storeInfo = store :: rest from hstore,
      storeInfo0]
    simp [outcome_tableInfoOf, he, hr]
  | _ => exact absurd hm Bool.false_ne_true

/-- **A `GET` that compares columns can be taken through a null pointer**:
by a table with a single column, of another name. -/
theorem outcome_executeManipulation_nullColumn (message : Message)
    (transaction : Option Nat) (hs : message.storeInfos ≠ [])
    (hl : message.MayLackColumn) :
    ∃ table, (executeManipulation message transaction).outcome (succeeding table)
      = .error .nullColumn := by
  cases message with
  | get operation =>
    obtain ⟨hv, hk⟩ := hl
    obtain ⟨column, columns, hcolumns⟩ := List.exists_cons_of_ne_nil hv
    obtain ⟨store, rest, hstore⟩ := List.exists_cons_of_ne_nil hs
    refine ⟨Table.without (cStr column.name),
      outcome_manipulate hs _ transaction _ (o := .error .nullColumn) ?_⟩
    rw [Prog.outcome_bind, executeGet, show operation.storeInfo = store :: rest from hstore,
      storeInfo0]
    -- the table has one key column, so the path is the scan of the table
    have hpath : (accessPath operation store.storeName (transaction.getD 0)
        (Table.without (cStr column.name))).outcome
          (succeeding (Table.without (cStr column.name))) = .error .nullColumn := by
      unfold accessPath
      rw [if_neg (by simpa using hk), if_neg (by simp)]
      simp [succeeding, setEqualValue, hcolumns, setComparisons]
    simp [outcome_tableInfoOf, hpath]
  | _ => exact hl.elim

/-- The records are of a known type where everything succeeds, so that there
is a row. -/
theorem outcome_operationResult (operation : OperationState) :
    ∃ result, (operationResult operation).outcome (succeeding table) = .ok result := by
  unfold operationResult
  split
  · split
    · exact ⟨⟨[], operation.type⟩, rfl⟩
    · obtain ⟨row, hrow⟩ : ∃ row, addRecordToResult operation.columnValues
          (succeeding table (.records operation.operation.pointer)) = some row := by
        rw [← Option.ne_none_iff_exists', Ne, addRecordToResult_eq_none_iff]
        rintro ⟨record, -, h⟩
        exact absurd h (by simp [succeeding])
      refine ⟨⟨[row], operation.type⟩, ?_⟩
      rw [Prog.outcome_bind, Prog.outcome_perform]
      dsimp only
      rw [hrow]
      rfl
  · exact ⟨⟨[], operation.type⟩, rfl⟩

/-! ## Turns that can happen -/

/-- **The loop can go on after every message it can go on after.** -/
theorem can_pass (messagesTuple : FrameMessagesTuple) (s : LoopState) (message : Message)
    (h : message.canPass = true) :
    (executeMessage P messagesTuple s message).Can (fun trace o =>
      ∃ next, o = .ok (some next)
        ∧ MessageRun P messagesTuple s message trace (.ok (some next))
        ∧ ∀ e ∈ trace, committedBy e = []) := by
  have hrun : ∃ o next, o = .ok (some next) ∧
      (executeMessage P messagesTuple s message).outcome
        (succeeding (Table.ofNames (comparedNames message))) = o := by
    cases hd : isDefinitionFrame message with
    | false =>
      obtain ⟨hm, hs⟩ := Message.isManipulation_of_canPass h hd
      obtain ⟨o, ho⟩ := outcome_executeManipulation message s.transaction hm hs
      refine ⟨_, ⟨some (s.transaction.getD 0), s.transactionOperations ++ [o]⟩, rfl, ?_⟩
      unfold executeMessage
      rw [hd, if_neg Bool.false_ne_true, Prog.outcome_bind, ho]
      rfl
    | true =>
      -- a definition operation is answered, whatever the answers
      have hall := executeMessage_cases P messagesTuple s message _ _
        (Prog.runs_run (succeeding (Table.ofNames (comparedNames message))) _)
      refine ⟨.ok (some s), s, rfl, ?_⟩
      unfold Prog.outcome
      generalize ((executeMessage P messagesTuple s message).run
        (succeeding (Table.ofNames (comparedNames message)))).1 = trace at hall
      generalize ((executeMessage P messagesTuple s message).run
        (succeeding (Table.ofNames (comparedNames message)))).2 = o at hall ⊢
      cases hall with
      | answered => rfl
      | added t operation hm =>
        exact absurd hm (Message.not_isManipulation_of_isDefinitionFrame hd)
      | broke result hd' => exact absurd (hd.symm.trans hd') (by simp)
      | faulted f hm =>
        exact absurd hm (Message.not_isManipulation_of_isDefinitionFrame hd)
  obtain ⟨_, next, rfl, ho⟩ := hrun
  refine ((Prog.can_of_outcome _ ho).and_ensures
    ((executeMessage_cases P messagesTuple s message).and
      (executeMessage_commits P messagesTuple s message))).mono ?_
  rintro trace o ⟨⟨rfl, -⟩, hc, hcommits⟩
  exact ⟨next, rfl, hc, hcommits⟩

/-- An operation that lacks its store faults. -/
theorem can_fault_of_lacksStore (messagesTuple : FrameMessagesTuple) (s : LoopState)
    {message : Message} (h : message.LacksStore) :
    (executeMessage P messagesTuple s message).Can (fun _ o => o = .error .storeInfo) := by
  unfold executeMessage
  rw [Message.isDefinitionFrame_of_isManipulation h.1, if_neg Bool.false_ne_true,
    executeManipulation_of_lacksStore h, Prog.fault_bind]
  exact Prog.can_fault.mpr rfl

/-- A `GET` that compares columns can fault. -/
theorem can_fault_of_mayLackColumn (messagesTuple : FrameMessagesTuple) (s : LoopState)
    {message : Message} (hm : message.isManipulation = true) (hs : message.storeInfos ≠ [])
    (h : message.MayLackColumn) :
    (executeMessage P messagesTuple s message).Can (fun _ o => o = .error .nullColumn) := by
  obtain ⟨table, ho⟩ := outcome_executeManipulation_nullColumn message s.transaction hs h
  refine (Prog.can_of_outcome (succeeding table) (o := .error .nullColumn) ?_).mono
    (fun _ _ ho => ho.1)
  unfold executeMessage
  rw [Message.isDefinitionFrame_of_isManipulation hm, if_neg Bool.false_ne_true,
    Prog.outcome_bind, ho]

/-- **An applicable definition operation can take effect.** -/
theorem can_apply (messagesTuple : FrameMessagesTuple) (s : LoopState) {message : Message}
    (h : message.applicable = true) :
    (executeMessage P messagesTuple s message).Can (fun trace o =>
      o = .ok (some s) ∧ journal trace = message.effect.toList) := by
  have hd := Message.isDefinitionFrame_of_applicable h
  unfold executeMessage
  rw [hd, if_pos rfl]
  cases message with
  | createDatabase operation =>
    exact ⟨_, _, Prog.runs_run (succeeding (Table.ofNames [])) _, rfl, rfl⟩
  | dropDatabase operation =>
    exact ⟨_, _, Prog.runs_run (succeeding (Table.ofNames [])) _, rfl, rfl⟩
  | createStore operation =>
    have hkeys : primaryKeyNames operation ≠ [] ∧ distributionKeyNames operation ≠ [] := by
      simpa [Message.applicable] using h
    have hquery : executeDefinition (.createStore operation) messagesTuple.transactionID
        = some <$> runQuery (createTableText operation) messagesTuple.transactionID := by
      show some <$> executeCreateStore operation _ = _
      rw [executeCreateStore, if_neg hkeys.1, if_neg hkeys.2]
    rw [hquery]
    exact ⟨_, _, Prog.runs_run (succeeding (Table.ofNames [])) _, rfl, rfl⟩
  | dropStore operation =>
    exact ⟨_, _, Prog.runs_run (succeeding (Table.ofNames [])) _, rfl, rfl⟩
  | _ => exact absurd h Bool.false_ne_true

/-! ## Rows that cannot be shown -/

/-- **A `GET` of another store can end the server**, while every row of these
stores can be shown. -/
theorem can_readUnknown (stores : Bytes → Prop) {operations : List OperationState}
    (h : ∃ o ∈ operations, o.type = .get ∧ ¬ stores o.operation.storeName
      ∧ o.columnValues ≠ []) :
    (operationResults operations).Can (fun trace o =>
      o = .error .columnType ∧ ¬ ReadsUnknown stores operations trace) := by
  induction operations with
  | nil =>
    obtain ⟨o, ho, -⟩ := h
    exact absurd ho List.not_mem_nil
  | cons operation operations ih =>
    by_cases hhere : operation.type = .get ∧ ¬ stores operation.operation.storeName
        ∧ operation.columnValues ≠ []
    · obtain ⟨hget, hstore, hrecords⟩ := hhere
      obtain ⟨record, hrecord⟩ := List.exists_mem_of_ne_nil _ hrecords
      have hnone : addRecordToResult operation.columnValues
          (fun _ => ⟨[], none, []⟩ : Snapshot) = none :=
        addRecordToResult_eq_none_iff.mpr ⟨record, hrecord, rfl⟩
      refine Prog.Can.bind_fault _ ?_
      unfold operationResult
      rw [if_pos hget]
      by_cases hscan : operation.operation.access.isScan = true
      · rw [if_pos hscan, Prog.perform_bind, Prog.can_call]
        refine ⟨⟨[fun _ => ⟨[], none, []⟩], .endOfData⟩, ?_⟩
        rw [show List.mapM _ _ = none from
          mapM_eq_none_iff.mpr ⟨_, List.mem_cons_self, hnone⟩]
        refine Prog.can_fault.mpr ⟨_, rfl, rfl, ?_⟩
        rw [readsUnknown_cons_of_get hget]
        exact fun h => h.elim (fun h => hstore h.1) not_readsUnknown_nil
      · rw [if_neg hscan, Prog.perform_bind, Prog.can_call]
        refine ⟨fun _ => ⟨[], none, []⟩, ?_⟩
        rw [hnone]
        refine Prog.can_fault.mpr ⟨_, rfl, rfl, ?_⟩
        rw [readsUnknown_cons_of_get hget]
        exact fun h => h.elim (fun h => hstore h.1) not_readsUnknown_nil
    · -- the rows of the first operation are shown, and it goes on behind it
      obtain ⟨o, ho, hbad⟩ := h
      have hrest : ∃ o ∈ operations, o.type = .get ∧ ¬ stores o.operation.storeName
          ∧ o.columnValues ≠ [] := by
        rcases List.mem_cons.mp ho with rfl | ho
        · exact absurd hbad hhere
        · exact ⟨o, ho, hbad⟩
      obtain ⟨_, hshown⟩ := @outcome_operationResult (Table.ofNames []) operation
      refine Prog.Can.bind (((Prog.can_of_outcome _ hshown).and_ensures
        (operationResult_ensures operation)).mono ?_)
      rintro front _ ⟨⟨rfl, -⟩, ⟨result, ho, hresult⟩ | ⟨ho, -⟩⟩
      · refine ⟨_, rfl, Prog.Can.bind_fault _ ((ih hrest).mono ?_)⟩
        rintro rest _ ⟨rfl, hshown⟩
        exact ⟨_, rfl, rfl, mt hresult.readsUnknown_iff.mp hshown⟩
      · exact absurd ho (by simp)

/-- The same of the end of the loop. -/
theorem can_finish_unknown (stores : Bytes → Prop) (messagesTuple : FrameMessagesTuple)
    {s : LoopState} (hs : s.transaction.isSome = true)
    (h : ∃ o ∈ s.transactionOperations, o.type = .get ∧ ¬ stores o.operation.storeName
      ∧ o.columnValues ≠ []) :
    (finish P messagesTuple s).Can (fun trace o =>
      o = .error .columnType ∧ ¬ MeetsUnknown stores trace) := by
  obtain ⟨transaction, ht⟩ := Option.isSome_iff_exists.mp hs
  unfold finish
  rw [ht]
  refine Prog.can_call.mpr ⟨(), Prog.can_call.mpr ⟨.ok, ?_⟩⟩
  show (operationResults s.transactionOperations >>= _).Can _
  have hprep := (prepares_of_operates (operates_operationResults (F := fun _ => True)
    s.transactionOperations trivial)).ensures
  refine Prog.Can.bind_fault _ (((can_readUnknown stores h).and_ensures hprep).mono ?_)
  rintro trace _ ⟨⟨rfl, hshown⟩, hprep, -⟩
  refine ⟨_, rfl, rfl, ?_⟩
  rw [MeetsUnknown, MeetsUnknown, not_or, not_or]
  exact ⟨not_false, hshown,
    not_meetsUnknown (fun e he => committedBy_of_isPreparation (hprep e he))⟩

/-! ## Several turns -/

/-- **A run of turns**, after each of which the loop went on. -/
inductive Turns (messagesTuple : FrameMessagesTuple) :
    List Message → LoopState → Trace → LoopState → Prop where
  | nil (s : LoopState) : Turns messagesTuple [] s [] s
  | cons {message : Message} {messages : List Message} {s next last : LoopState}
      {front rest : Trace}
      (hturn : MessageRun P messagesTuple s message front (.ok (some next)))
      (hcommits : ∀ e ∈ front, committedBy e = [])
      (hrest : Turns messagesTuple messages next rest last) :
      Turns messagesTuple (message :: messages) s (front ++ rest) last

variable {P} {messagesTuple : FrameMessagesTuple} {messages : List Message}
  {s last : LoopState} {trace : Trace}

theorem MessageRun.isSome_transaction {message : Message} {next : LoopState}
    (h : MessageRun P messagesTuple s message trace (.ok (some next)))
    (hs : message.isManipulation = true ∨ s.transaction.isSome = true) :
    next.transaction.isSome = true := by
  cases h with
  | answered result hd =>
    refine hs.resolve_left (fun hm => ?_)
    exact absurd hm (Message.not_isManipulation_of_isDefinitionFrame hd)
  | added => rfl

/-- A transaction that is open stays open, and a manipulation operation
opens one. -/
theorem Turns.isSome_transaction (h : Turns P messagesTuple messages s trace last)
    (hs : (∃ m ∈ messages, m.isManipulation = true) ∨ s.transaction.isSome = true) :
    last.transaction.isSome = true := by
  induction h with
  | nil s =>
    refine hs.resolve_left (fun ⟨m, hm, _⟩ => List.not_mem_nil hm)
  | cons hturn _ _ ih =>
    by_cases hrest : ∃ m ∈ ‹List Message›, m.isManipulation = true
    · exact ih (Or.inl hrest)
    · refine ih (Or.inr (hturn.isSome_transaction ?_))
      refine hs.imp_left (fun ⟨m, hm, hman⟩ => ?_)
      rcases List.mem_cons.mp hm with rfl | hm
      · exact hman
      · exact absurd ⟨m, hm, hman⟩ hrest

/-- Turns commit nothing. -/
theorem Turns.commits (h : Turns P messagesTuple messages s trace last) :
    ∀ e ∈ trace, committedBy e = [] := by
  induction h with
  | nil s => exact fun e he => absurd he List.not_mem_nil
  | cons _ hcommits _ ih => exact fun e he => (List.mem_append.mp he).elim (hcommits e) (ih e)

/-- **What turns add is there at their end**, an operation for each of the
manipulation operations. -/
theorem Turns.exists_operation (h : Turns P messagesTuple messages s trace last) :
    (∀ o ∈ s.transactionOperations, o ∈ last.transactionOperations)
      ∧ ∀ m ∈ messages, m.isManipulation = true →
        ∃ o ∈ last.transactionOperations, Adds m o := by
  induction h with
  | nil s => exact ⟨fun o ho => ho, fun m hm => absurd hm List.not_mem_nil⟩
  | cons hturn _ _ ih =>
    cases hturn with
    | answered result hd =>
      refine ⟨ih.1, List.forall_mem_cons.mpr ⟨fun hm => ?_, ih.2⟩⟩
      exact absurd hm (Message.not_isManipulation_of_isDefinitionFrame hd)
    | added transaction operation hm hs hadds =>
      refine ⟨fun o ho => ih.1 o (List.mem_append_left _ ho),
        List.forall_mem_cons.mpr ⟨fun _ => ?_, ih.2⟩⟩
      exact ⟨operation, ih.1 operation (List.mem_append_right _ (List.mem_singleton_self _)),
        hadds⟩

/-- **Turns that can be taken are taken by some run**, which then goes on
as any run from the state they lead to. -/
theorem can_serveFrom_append (hpass : ∀ m ∈ messages, m.canPass = true)
    {rest : List Message} {Q : Trace → Except Fault Unit → Prop}
    (h : ∀ front next, Turns P messagesTuple messages s front next →
      (serveFrom P messagesTuple rest next).Can (fun trace o => Q (front ++ trace) o)) :
    (serveFrom P messagesTuple (messages ++ rest) s).Can Q := by
  induction messages generalizing s Q with
  | nil => exact h [] s (.nil s)
  | cons message messages ih =>
    refine Prog.Can.bind ((can_pass P messagesTuple s message
      (hpass message List.mem_cons_self)).mono ?_)
    rintro front _ ⟨next, rfl, hturn, hcommits⟩
    refine ⟨some next, rfl, ih (fun m hm => hpass m (List.mem_cons_of_mem _ hm)) ?_⟩
    intro middle last hrest
    refine (h _ last (.cons hturn hcommits hrest)).mono (fun trace o hQ => ?_)
    rwa [← List.append_assoc]

/-- The rule for one turn, where some run of it goes on. -/
theorem can_serveFrom_cons {message : Message} {Q : Trace → Except Fault Unit → Prop}
    (h : (executeMessage P messagesTuple s message).Can (fun front o =>
      ∃ next, o = .ok (some next)
        ∧ (serveFrom P messagesTuple messages next).Can
            (fun trace o => Q (front ++ trace) o))) :
    (serveFrom P messagesTuple (message :: messages) s).Can Q := by
  refine Prog.Can.bind (h.mono ?_)
  rintro front _ ⟨next, rfl, hQ⟩
  exact ⟨some next, rfl, hQ⟩

/-- The rule for one turn that can fault. -/
theorem can_serveFrom_fault {message : Message} {f : Fault}
    {Q : Trace → Except Fault Unit → Prop}
    (h : (executeMessage P messagesTuple s message).Can (fun _ o => o = .error f))
    (hQ : ∀ trace, Q trace (.error f)) :
    (serveFrom P messagesTuple (message :: messages) s).Can Q := by
  refine Prog.Can.bind_fault _ (h.mono ?_)
  rintro front _ rfl
  exact ⟨f, rfl, hQ front⟩

/-- The first element in question among those before the first that fails
a test. -/
theorem exists_first_of_mem_takeWhile {α : Type} {l : List α} {p q : α → Bool}
    (h : ∃ x ∈ l.takeWhile p, q x = true) :
    ∃ front x rest, l = front ++ x :: rest ∧ (∀ a ∈ front, p a = true ∧ q a = false)
      ∧ p x = true ∧ q x = true := by
  obtain ⟨x, hx⟩ := List.find?_isSome.mpr h |> Option.isSome_iff_exists.mp
  obtain ⟨hq, front, rest, hl, hfront⟩ := List.find?_eq_some_iff_append.mp hx
  have hp : ∀ a ∈ l.takeWhile p, p a = true := fun a ha => List.mem_takeWhile_imp ha
  rw [hl] at hp
  refine ⟨front, x, rest ++ l.dropWhile p, ?_, fun a ha => ⟨?_, ?_⟩, ?_, hq⟩
  · rw [← List.cons_append, ← List.append_assoc, ← hl, List.takeWhile_append_dropWhile]
  · exact hp a (List.mem_append_left _ ha)
  · simpa using hfront a ha
  · exact hp x (List.mem_append_right _ List.mem_cons_self)

end NDBMessageExecutor

end VoloDB
