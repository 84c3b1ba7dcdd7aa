import VoloDB.BatchAnswers
import VoloDB.Translation

/-!
# The server as a key-value store

What a client gets to see of the server are the results of its transactions.
Here is what they should be: a transaction either fails and changes nothing,
or what its messages write is applied to the contents of the stores, and where
it only reads, its results are the rows of the stores as they are (`Outcome`).
A history of transactions goes from contents to contents (`Transactions`).

An executor that is given one transaction at a time, as it is by a client that
waits for each result, and an NDB that does with what it is told what a
database does, make such a history of it, with the replies in the order of the
transactions (`executeBatches_transacts`). So a client reads what it has
written (`reads_what_was_set`).
-/

namespace VoloDB

open Interaction NDBMessageProcessor NDBMessageExecutor

variable {C : Catalog}

/-! ## What transactions mean -/

/-- What a message writes. -/
def Message.write : Message → Option (Keyed.Write Bytes Bytes Bytes)
  | .set operation => operation.storeInfo.head?.map (fun storeInfo =>
      .put (cStr storeInfo.storeName) (columnPairs operation.primaryKey)
        (columnPairs operation.value))
  | .delete operation => operation.storeInfo.head?.map (fun storeInfo =>
      .remove (cStr storeInfo.storeName) (columnPairs operation.primaryKey))
  | _ => none

/-- What NDB has been told to write is what the message writes. -/
theorem Tells.write_eq {message : Message} {o : Told} (h : Tells C message o) :
    o.write = message.write := by
  cases h with
  | set hstore =>
    rw [Message.write, hstore]
    rfl
  | delete hstore =>
    rw [Message.write, hstore]
    rfl
  | @get operation storeInfo table o hstore hname htable haccess =>
    rw [Told.write, haccess]
    unfold GetOperation.path
    split_ifs <;> rfl

/-- What the transaction writes is what its messages write. -/
theorem Building.writes_eq {d : C.Contents} {s : NdbState C} {transaction : Nat}
    {messages : List Message} {operations : List OperationState}
    (h : Building d transaction operations s)
    (hall : List.Forall₂ (Realizes C) messages operations) :
    s.writes transaction = messages.filterMap Message.write := by
  have htold : (operations.map (·.operation.pointer)).filterMap (fun p => (s.told p).write)
      = operations.filterMap (fun o => (Told.of o).write) := by
    rw [List.filterMap_map]
    exact List.filterMap_congr (fun o ho => congrArg Told.write (h.told o ho))
  rw [NdbState.writes, h.members_eq, htold]
  clear htold h
  induction hall with
  | nil => rfl
  | cons hrealizes _ ih => rw [List.filterMap_cons, List.filterMap_cons, hrealizes.2.write_eq, ih]

/-- **The row of a result shows a row of a store**: it has the columns of the
table in their order, each with its name and its value. -/
def Shown (table : Table) (row : Keyed.Row Bytes Bytes) (shown : Row) : Prop :=
  List.Forall₂ (fun (column : TableColumn) (value : ColumnValue) =>
    value.name = column.name ∧ ∀ v, row column.name = some v → value.value = v)
    table.columns shown.column

/-- **The rows of a `GET`**: by the primary key the row there is, and in a scan
all rows that satisfy the conditions. -/
def ReadsRows (d : C.Contents) (storeName : Bytes) (table : Table) (operation : GetOperation)
    (rows : List Row) : Prop :=
  if operation.path table = .simpleRead then
    ∀ row, (d storeName).select (operation.conditions table) = {row} →
      ∃ shown, rows = [shown] ∧ Shown table row shown
  else ∃ selected : List (Keyed.Row Bytes Bytes),
    (d storeName).select (operation.conditions table) = selected
      ∧ List.Forall₂ (Shown table) selected rows

/-- **The result of a message that reads.** -/
def Reads (d : C.Contents) : Message → OperationResult → Prop
  | .get operation, result => ∃ storeInfo table, operation.storeInfo.head? = some storeInfo
      ∧ C.table (cStr storeInfo.storeName) = some table
      ∧ ReadsRows d (cStr storeInfo.storeName) table operation result.row
  | _, _ => False

/-- **What becomes of a transaction.** -/
inductive Outcome (d : C.Contents) (messages : List Message) (result : Result) :
    C.Contents → Prop
  /-- It fails, and nothing changes. -/
  | failed (herror : result.errorCode ≠ none) : Outcome d messages result d
  /-- It is committed: all of it takes effect, and what it reads is there. -/
  | committed {d' : C.Contents} (hok : result.errorCode = none)
      (hwrites : d.applyAll (messages.filterMap Message.write) = some d')
      (htypes : result.result.map (·.type) = messages.map FrameUtils.getFrameType)
      (hreads : messages.filterMap Message.write = [] →
        List.Forall₂ (Reads d) messages result.result) :
    Outcome d messages result d'

/-- A reply to a tuple that tells what has become of it. -/
def Transacts (P : Protobuf) (d : C.Contents) (t : FrameMessagesTuple) (reply : Bytes × Bytes)
    (d' : C.Contents) : Prop :=
  reply.1 = t.identifier ∧ ∃ result : Result, reply.2 = replyBytes P result
    ∧ result.transactionIdentifier = t.transactionID ∧ Outcome d t.messages result d'

/-- **A history of transactions**, each with its reply. -/
inductive Transactions (P : Protobuf) :
    C.Contents → List FrameMessagesTuple → List (Bytes × Bytes) → C.Contents → Prop
  | nil (d : C.Contents) : Transactions P d [] [] d
  | cons {d d₁ d₂ : C.Contents} {t : FrameMessagesTuple} {reply : Bytes × Bytes}
      {history : List FrameMessagesTuple} {rest : List (Bytes × Bytes)}
      (h : Transacts P d t reply d₁) (hrest : Transactions P d₁ history rest d₂) :
    Transactions P d (t :: history) (reply :: rest) d₂

/-! ## The results of a transaction -/

section Results

variable {s : NdbState C}

/-- The records of the columns hold a row of the store, and the row that shows
these records shows it. -/
theorem shown_of_holds {o : OperationState} {table : Table} {row : Keyed.Row Bytes Bytes}
    {records : Snapshot} {shown : Row}
    (hrecords : (Told.of o).records.map Prod.snd = List.range table.getNoOfColumns)
    (h : (Told.of o).Holds table row records) (hshows : shown.Shows o.columnValues records) :
    Shown table row shown := by
  obtain ⟨hlength, hcolumns⟩ := List.forall₂_iff_get.mp hshows
  have hcount : table.columns.length = o.columnValues.length := by
    have hall := congrArg List.length hrecords
    rw [List.length_map, List.length_range] at hall
    exact (List.length_zipIdx.symm.trans hall).symm
  refine List.forall₂_iff_get.mpr ⟨hcount.trans hlength, fun i hi hi' => ?_⟩
  have hshown := hcolumns i (hlength ▸ hi') hi'
  have hheld := h _ i (List.mk_mem_zipIdx_iff_getElem?.mpr
    (List.getElem?_eq_getElem (hlength ▸ hi'))) _ (List.getElem?_eq_getElem hi)
  exact ⟨hshown.name_eq.trans hheld.1, fun v hv => hshown.value_eq.trans (hheld.2 v hv)⟩

/-- Two lists of one length are related through a third. -/
theorem forall₂_trans {α β γ : Type} {r : α → β → Prop} {q : β → γ → Prop} {t : α → γ → Prop}
    (htrans : ∀ a b c, r a b → q b c → t a c) {as : List α} {bs : List β} {cs : List γ}
    (h : List.Forall₂ r as bs) (h' : List.Forall₂ q bs cs) : List.Forall₂ t as cs := by
  induction h generalizing cs with
  | nil =>
    obtain rfl := List.forall₂_nil_left_iff.mp h'
    exact .nil
  | cons hab _ ih =>
    obtain ⟨c, cs, hbc, hcs, rfl⟩ := List.forall₂_cons_left_iff.mp h'
    exact .cons (htrans _ _ _ hab hbc) (ih hcs)

/-- The path by the primary key is the one that is no scan. -/
theorem path_of_not_isScan {operation : GetOperation} {table : Table}
    (h : (operation.path table).isScan = false) : operation.path table = .simpleRead := by
  unfold GetOperation.path at h ⊢
  split_ifs at h ⊢ with h₁ h₂
  · rfl
  · exact absurd h (by decide)
  · exact absurd h (by decide)

/-- **The result of an operation** that NDB knows of. -/
theorem ResultOf.reads {message : Message} {o : OperationState} {trace : Trace}
    {r : OperationResult} (h : ResultOf o trace r) (hrealizes : Realizes C message o)
    (htold : s.told o.operation.pointer = .of o) (hndb : (ndbContract C).Admitted s trace) :
    (ndbContract C).after s trace = s ∧ r.type = FrameUtils.getFrameType message
      ∧ (o.operation.pointer ∈ s.readable → message.write = none →
        Reads s.contents message r) := by
  obtain ⟨htype, htells⟩ := hrealizes
  generalize htold' : Told.of o = told at htells
  cases htells with
  | @set operation storeInfo hstore =>
    have hwrites : (Message.set operation).write ≠ none := by simp [Message.write, hstore]
    cases h with
    | written h => exact ⟨rfl, htype, fun _ hnone => absurd hnone hwrites⟩
    | row h | scan h => exact absurd (htype.symm.trans h) (by simp [FrameUtils.getFrameType])
  | @delete operation storeInfo hstore =>
    have hwrites : (Message.delete operation).write ≠ none := by simp [Message.write, hstore]
    cases h with
    | written h => exact ⟨rfl, htype, fun _ hnone => absurd hnone hwrites⟩
    | row h | scan h => exact absurd (htype.symm.trans h) (by simp [FrameUtils.getFrameType])
  | @get operation storeInfo table _ hstore hname htable haccess hconditions hrecords =>
    subst htold'
    have hpath : o.operation.access = operation.path table := Option.some.inj haccess
    have htable' : C.table (s.told o.operation.pointer).storeName = some table := by
      rw [htold, hname]
      exact htable
    cases h with
    | written h => exact absurd htype h
    | row h hscan records shown hshows =>
      refine ⟨rfl, htype, fun hreadable _ => ⟨storeInfo, table, hstore, htable, ?_⟩⟩
      have hrow : ∀ row, (s.contents (s.told o.operation.pointer).storeName).select
            ((s.told o.operation.pointer).conditions table) = {row} →
          (s.told o.operation.pointer).Holds table row records :=
        hndb.1 hreadable table htable'
      rw [htold, hconditions, hname] at hrow
      unfold ReadsRows
      rw [if_pos (path_of_not_isScan (hpath ▸ hscan))]
      exact fun row hselect => ⟨shown, rfl, shown_of_holds hrecords (hrow row hselect) hshows⟩
    | scan h hscan cursor shown hshows =>
      refine ⟨rfl, htype, fun hreadable _ => ⟨storeInfo, table, hstore, htable, ?_⟩⟩
      have hrows : ∃ rows : List (Keyed.Row Bytes Bytes),
          (s.contents (s.told o.operation.pointer).storeName).select
              ((s.told o.operation.pointer).conditions table) = rows
            ∧ List.Forall₂ ((s.told o.operation.pointer).Holds table) rows cursor.rows
            ∧ cursor.ending = .endOfData := hndb.1 hreadable table htable'
      rw [htold, hconditions, hname] at hrows
      obtain ⟨rows, hselect, hholds, -⟩ := hrows
      unfold ReadsRows
      rw [if_neg (fun h => by rw [hpath, h] at hscan; exact Bool.false_ne_true hscan)]
      refine ⟨rows, hselect, forall₂_trans (fun row read shown hrow hshown => ?_) hholds hshows⟩
      exact shown_of_holds hrecords hrow hshown

/-- **The results of the operations**, in their order. -/
theorem ResultsOf.reads {messages : List Message} {operations : List OperationState}
    {trace : Trace} {results : List OperationResult} (h : ResultsOf operations trace results)
    (hall : List.Forall₂ (Realizes C) messages operations)
    (htold : ∀ o ∈ operations, s.told o.operation.pointer = .of o)
    (hndb : (ndbContract C).Admitted s trace) :
    (ndbContract C).after s trace = s
      ∧ results.map (·.type) = messages.map FrameUtils.getFrameType
      ∧ ((∀ o ∈ operations, o.operation.pointer ∈ s.readable) →
        (∀ message ∈ messages, message.write = none) →
        List.Forall₂ (Reads s.contents) messages results) := by
  induction h generalizing messages with
  | nil =>
    obtain rfl := List.forall₂_nil_right_iff.mp hall
    exact ⟨rfl, rfl, fun _ _ => .nil⟩
  | @cons operation operations front rest result results head _ ih =>
    obtain ⟨message, messages, hrealizes, hallRest, rfl⟩ := List.forall₂_cons_right_iff.mp hall
    obtain ⟨ho, hrest⟩ := List.forall_mem_cons.mp htold
    obtain ⟨hfrontAdmitted, hrestAdmitted⟩ := Contract.admitted_append.mp hndb
    obtain ⟨hafter, htype, hreads⟩ := head.reads hrealizes ho hfrontAdmitted
    rw [hafter] at hrestAdmitted
    obtain ⟨hafterAll, htypes, hreadsAll⟩ := ih hallRest hrest hrestAdmitted
    refine ⟨?_, ?_, fun hreadable hwrite => ?_⟩
    · rw [Contract.after_append, hafter, hafterAll]
    · rw [List.map_cons, List.map_cons, htype, htypes]
    · obtain ⟨hro, hrreadable⟩ := List.forall_mem_cons.mp hreadable
      obtain ⟨hwo, hrwrite⟩ := List.forall_mem_cons.mp hwrite
      exact .cons (hreads hro hwo) (hreadsAll hrreadable hrwrite)

end Results

/-! ## Executing a tuple -/

namespace NDBMessageExecutor

variable (P : Protobuf)

/-- What the loop over manipulation operations comes to: the failure to add
one has been answered, or nothing has been. -/
def Tried (messagesTuple : FrameMessagesTuple) (trace : Trace) {α : Type} :
    Except Fault (Option α) → Prop
  | .error _ => True
  | .ok none => ∃ result : Result,
      replies trace = [(messagesTuple.identifier, replyBytes P result)]
        ∧ result.transactionIdentifier = messagesTuple.transactionID ∧ result.errorCode ≠ none
  | .ok (some _) => replies trace = []

theorem executeMessages_tried (messagesTuple : FrameMessagesTuple) {messages : List Message}
    (hm : ∀ message ∈ messages, FrameUtils.isDefinitionFrame message = false) (l : LoopState) :
    (executeMessages P messagesTuple messages l).Ensures (fun trace o =>
      Tried P messagesTuple trace o ∧ ∀ l', o = .ok (some l') →
        messages ≠ [] ∨ l.transaction.isSome = true → l'.transaction.isSome = true) := by
  induction messages generalizing l with
  | nil =>
    refine Prog.ensures_pure.mpr ⟨rfl, fun l' hl' h => ?_⟩
    obtain rfl := Option.some.inj (Except.ok.inj hl')
    exact h.resolve_left (fun hne => hne rfl)
  | cons message messages ih =>
    obtain ⟨hmessage, hmessages⟩ := List.forall_mem_cons.mp hm
    refine (executeMessage_cases P messagesTuple l message).bind ?_ ?_
    · exact fun _ _ _ => ⟨trivial, fun l' hl' => by simp at hl'⟩
    · intro front next hturn
      cases hturn with
      | answered result hd => exact absurd hd (by simp [hmessage])
      | added transaction o hm hs hadds hprep =>
        refine (ih hmessages _).mono (fun rest o h => ⟨?_, fun l' hl' _ => h.2 l' hl' (Or.inr rfl)⟩)
        have htried := h.1
        match o with
        | .error _ => exact trivial
        | .ok none =>
          unfold Tried at htried ⊢
          rwa [replies_append, replies_of_isPreparation hprep, List.nil_append]
        | .ok (some _) =>
          unfold Tried at htried ⊢
          rwa [replies_append, replies_of_isPreparation hprep, List.nil_append]
      | broke result hd hreplies hid herror =>
        refine Prog.ensures_pure.mpr ⟨⟨result, ?_, hid, herror⟩, fun l' hl' => by simp at hl'⟩
        rw [List.append_nil]
        exact hreplies

/-- **What executing a tuple comes to**, for its client. -/
theorem execute_tried {t : FrameMessagesTuple} (hne : t.messages ≠ [])
    (hm : ∀ message ∈ t.messages, FrameUtils.isDefinitionFrame message = false) :
    (execute P t).Ensures (fun trace o => Tried P t trace o
      ∧ ∀ state, o = .ok (some state) → StateOf t state) := by
  refine (executeMessages_tried P t hm ⟨none, []⟩).bind ?_ ?_
  · exact fun _ _ _ => ⟨trivial, fun state hstate => by simp at hstate⟩
  · rintro front last ⟨htried, hopen⟩
    match last with
    | none =>
      refine Prog.ensures_pure.mpr ⟨?_, fun state hstate => by simp at hstate⟩
      rw [List.append_nil]
      exact htried
    | some ⟨none, operations⟩ => exact absurd (hopen _ rfl (Or.inl hne)) Bool.false_ne_true
    | some ⟨some transaction, operations⟩ =>
      refine Prog.ensures_call.mpr (fun _ => Prog.ensures_pure.mpr ⟨?_, ?_⟩)
      · show replies (front ++ [_]) = []
        rw [replies_append, show replies front = [] from htried]
        rfl
      · intro state hstate
        obtain rfl := Option.some.inj (Except.ok.inj hstate)
        exact ⟨rfl, rfl⟩

variable {d : C.Contents} {s : NdbState C}

/-! ## The callback -/

/-- **The callback** of a transaction that NDB knows of. -/
theorem complete_outcome {messages : List Message} {state : NdbTransactionState}
    (hbuilding : Building d state.transaction state.operations s)
    (hall : List.Forall₂ (Realizes C) messages state.operations) :
    (complete P state).AssuresUnless (ndbContract C) (MeetsUnknown anyStore) s (fun s' trace _ =>
      ∃ result : Result, replies trace = [(state.identifier, replyBytes P result)]
        ∧ result.transactionIdentifier = state.transactionID
        ∧ Outcome d messages result s'.contents) := by
  refine Prog.Assures.perform_bind (fun code hadmits => ?_)
  cases code with
  | failed =>
    refine Prog.Assures.perform_bind (fun ndbError _ => Prog.Assures.perform_bind (fun _ _ => ?_))
    refine Prog.Assures.perform_bind (fun _ _ =>
      Prog.assures_pure (Or.inr ⟨(), rfl, _, rfl, rfl, ?_⟩))
    show Outcome d messages _ s.contents
    rw [hbuilding.contents_eq]
    exact .failed (by simp [makeResultForError])
  | ok =>
    have hwritesEq : s.writes state.transaction = messages.filterMap Message.write :=
      hbuilding.writes_eq hall
    obtain ⟨d', hd'⟩ : ∃ d', d.applyAll (messages.filterMap Message.write) = some d' := by
      rw [← hwritesEq, ← hbuilding.contents_eq]
      exact Option.isSome_iff_exists.mp hadmits
    -- the contents, and what may be read of them, once it is committed
    have hcontents : ((ndbContract C).next s (.callback state) .ok).contents = d' := by
      show (s.contents.applyAll (s.writes state.transaction)).getD s.contents = d'
      rw [hwritesEq, hbuilding.contents_eq, hd']
      rfl
    have hreadable : messages.filterMap Message.write = [] → ∀ o ∈ state.operations,
        o.operation.pointer ∈ ((ndbContract C).next s (.callback state) .ok).readable := by
      intro hnone o ho
      show _ ∈ (if (s.writes state.transaction).isEmpty then s.members state.transaction else [])
      rw [hwritesEq, hnone, hbuilding.members_eq]
      exact List.mem_map_of_mem ho
    intro trace o hrun hndb
    rcases Prog.runs_bind_iff.mp hrun with
      ⟨f, rfl, hf⟩ | ⟨results, front, back, rfl, hfront, hback⟩
    · obtain ⟨_, ho, -⟩ | ⟨-, hunknown⟩ := operationResults_ensures _ _ _ hf
      · exact absurd ho (by simp)
      · exact Or.inl (Or.inl hunknown)
    · obtain ⟨hfrontAdmitted, -⟩ := Contract.admitted_append.mp hndb
      obtain ⟨_, ho, hresults⟩ | ⟨ho, -⟩ := operationResults_ensures _ _ _ hfront
      swap
      · exact absurd ho (by simp)
      obtain rfl := Except.ok.inj ho
      obtain ⟨hafter, htypes, hreads⟩ := hresults.reads
        (s := (ndbContract C).next s (.callback state) .ok) hall hbuilding.told hfrontAdmitted
      -- the transaction is closed, and the answer sent
      obtain ⟨_, rest, rfl, hrest⟩ := Prog.runs_call_iff.mp hback
      obtain ⟨_, last, rfl, hlast⟩ := Prog.runs_call_iff.mp hrest
      obtain ⟨rfl, rfl⟩ := Prog.runs_pure_iff.mp hlast
      refine Or.inr
        ⟨(), rfl, { makeResult state.transactionID with result := results }, ?_, rfl, ?_⟩
      · rw [replies_cons_of_none rfl, replies_append,
          replies_of_isPreparation hresults.isPreparation]
        rfl
      · rw [Contract.after_append, hafter]
        show Outcome d messages _ ((ndbContract C).next s (.callback state) .ok).contents
        rw [hcontents] at hreads ⊢
        refine .committed rfl hd' htypes (fun hnone => ?_)
        obtain rfl : d = d' := by
          rw [hnone] at hd'
          exact Option.some.inj hd'
        exact hreads (hreadable hnone) (List.filterMap_eq_nil_iff.mp hnone)

/-! ## One transaction at a time -/

/-- The polls bring one transaction to its end. -/
theorem pollLoop_eq_complete {state : NdbTransactionState} {polls : List (List Nat)}
    (h : polls.flatten = [state.transaction]) :
    pollLoop P 1 0 [state] polls = complete P state >>= fun _ => return [] := by
  induction polls with
  | nil => exact absurd h.symm (List.cons_ne_nil _ _)
  | cons poll polls ih =>
    rw [List.flatten_cons, List.append_eq_singleton_iff] at h
    obtain ⟨rfl, hrest⟩ | ⟨rfl, -⟩ := h
    · exact ih hrest
    · -- the callback, after which the one transaction has been counted
      show runCallbacks P [state.transaction] [state] >>= _ = _
      unfold runCallbacks
      simp only [List.find?_cons_of_pos, decide_true, List.erase_cons_head]
      exact Prog.bind_assoc _ _ _

/-- What follows the execution of a tuple that is alone in its batch. -/
def waitFor : Option NdbTransactionState → Exec (List NdbTransactionState)
  | none => return []
  | some state => waitForTransactionsToComplete P 1 [state]

/-- The batch of one tuple. -/
theorem executeBatch_singleton (t : FrameMessagesTuple) :
    executeBatch P [[t]] [] = Prog.call (.take t) (fun _ => execute P t >>= waitFor P) := by
  refine congrArg (Prog.call (Call.take t)) (funext fun _ => ?_)
  show ((execute P t >>= _) >>= _) >>= _ = _
  rw [Prog.bind_assoc, Prog.bind_assoc]
  refine congrArg (Bind.bind (execute P t)) (funext fun prepared => ?_)
  cases prepared <;> rfl

/-- **The run of a batch of one tuple.** -/
inductive AloneRun (t : FrameMessagesTuple) :
    Trace → Except Fault (List NdbTransactionState) → Prop
  | faulted {front : Trace} {f : Fault} (h : (execute P t).Runs front (.error f)) :
    AloneRun t (⟨.take t, ()⟩ :: front) (.error f)
  | answered {front : Trace} (h : (execute P t).Runs front (.ok none)) :
    AloneRun t (⟨.take t, ()⟩ :: front) (.ok [])
  | completed {front back : Trace} {state : NdbTransactionState}
      (h : (execute P t).Runs front (.ok (some state))) (polls : List (List Nat))
      (hback : (complete P state).Runs back (.ok ())) :
    AloneRun t (⟨.take t, ()⟩ :: (front ++ ⟨.pollNdb 1, polls⟩ :: back)) (.ok [])
  | aborted {front back : Trace} {state : NdbTransactionState} {f : Fault}
      (h : (execute P t).Runs front (.ok (some state))) (polls : List (List Nat))
      (hback : (complete P state).Runs back (.error f)) :
    AloneRun t (⟨.take t, ()⟩ :: (front ++ ⟨.pollNdb 1, polls⟩ :: back)) (.error f)

theorem executeBatch_alone (t : FrameMessagesTuple) {l : Ledger} (hl : Held [] none l) :
    (executeBatch P [[t]] []).Assures completingContract l (fun l' trace o =>
      AloneRun P t trace o ∧ ∀ left, o = .ok left → left = [] ∧ Held [] none l') := by
  have hheld : (executeBatch P [[t]] []).Assures completingContract l (fun l' _ o =>
      ∀ left, o = .ok left → left = [] ∧ Held [] none l') :=
    ((accounted_executeBatch P [[t]] hl).restrict (p := Ledger.completes)).assures
  refine Prog.Assures.and (fun trace o hrun hndb => ?_) hheld
  rw [executeBatch_singleton] at hrun
  obtain ⟨_, rest, rfl, hrest⟩ := Prog.runs_call_iff.mp hrun
  rcases Prog.runs_bind_iff.mp hrest with
    ⟨f, rfl, hf⟩ | ⟨prepared, front, back, rfl, hfront, hback⟩
  · exact .faulted hf
  · cases prepared with
    | none =>
      obtain ⟨rfl, rfl⟩ := Prog.runs_pure_iff.mp hback
      rw [List.append_nil]
      exact .answered hfront
    | some state =>
      obtain ⟨polls, back, rfl, hpolls⟩ := Prog.runs_call_iff.mp hback
      obtain ⟨hadmitted, hadmits, -⟩ := Contract.admitted_append.mp hndb.2
      -- the polls complete the one transaction that is prepared
      have hroom : ([] : List NdbTransactionState).length < maxTransactions := by decide
      have hprepared := (((accounted_execute P t hl hroom).restrict
        (p := Ledger.completes)).run hfront hadmitted).2 _ rfl
      rw [Option.toList_some, List.nil_append] at hprepared
      have hmap : ((completingContract.after l front).prepared).map (·.transaction)
          = [state.transaction] := congrArg (List.map (·.transaction)) hprepared.prepared_eq
      have hflatten : List.flatten polls = [state.transaction] := by
        have hnodup : (List.flatten polls).Nodup := hadmits.1.1
        have hsub : List.flatten polls ⊆ ((completingContract.after l front).prepared).map
          (·.transaction) := hadmits.1.2
        have hall : ((completingContract.after l front).prepared).map (·.transaction)
          ⊆ List.flatten polls := hadmits.2
        rw [hmap] at hsub hall
        exact List.perm_singleton.mp ((List.perm_ext_iff_of_nodup hnodup
          (List.nodup_singleton _)).mpr (fun a => ⟨fun ha => hsub ha, fun ha => hall ha⟩))
      have hpolls : (pollLoop P 1 0 [state] polls).Runs back o := hpolls
      rw [pollLoop_eq_complete P hflatten] at hpolls
      rcases Prog.runs_bind_iff.mp hpolls with
        ⟨f, rfl, hf⟩ | ⟨_, callback, last, rfl, hcallback, hlast⟩
      · exact .aborted hfront polls hf
      · obtain ⟨rfl, rfl⟩ := Prog.runs_pure_iff.mp hlast
        rw [List.append_nil]
        exact .completed hfront polls hcallback

/-- **A transaction alone** has its outcome, and its reply – unless a row that is
read has a type the protocol does not have, and then there is no reply. -/
theorem AloneRun.transacts {t : FrameMessagesTuple} {trace : Trace}
    {o : Except Fault (List NdbTransactionState)} (h : AloneRun P t trace o)
    (hne : t.messages ≠ []) (hm : ∀ message ∈ t.messages, message.Tellable C)
    (hndb : (ndbContract C).Admitted s trace) :
    (o = .ok [] ∧ ∃ reply, replies trace = [reply]
      ∧ Transacts P s.contents t reply ((ndbContract C).after s trace).contents)
    ∨ o = .error .columnType ∧ MeetsUnknown anyStore trace ∧ replies trace = [] := by
  have hdefinition : ∀ message ∈ t.messages, FrameUtils.isDefinitionFrame message = false := by
    intro message hmessage
    have htellable := hm message hmessage
    cases message <;> first | rfl | exact htellable.elim
  cases h with
  | @faulted front f hrun =>
    obtain ⟨_, ho, -⟩ := execute_attains P hm rfl _ _ hrun hndb.2
    exact absurd ho (by simp)
  | @answered front hrun =>
    obtain ⟨_, ho, hcontents, -⟩ := execute_attains P hm rfl _ _ hrun hndb.2
    obtain ⟨⟨result, hreplies, hid, herror⟩, -⟩ := execute_tried P hne hdefinition _ _ hrun
    refine Or.inl ⟨rfl, _, hreplies, rfl, result, rfl, hid, ?_⟩
    show Outcome _ _ _ ((ndbContract C).after s front).contents
    rw [show ((ndbContract C).after s front).contents = s.contents from hcontents]
    exact .failed herror
  | @completed front back state hrun polls hback =>
    obtain ⟨hfront, -, hbackAdmitted⟩ := Contract.admitted_append.mp hndb.2
    obtain ⟨_, ho, -, hprepared⟩ := execute_attains P hm rfl _ _ hrun hfront
    obtain rfl := Except.ok.inj ho
    obtain ⟨hbuilding, hall⟩ := hprepared state rfl
    obtain ⟨htried, hstate⟩ := execute_tried P hne hdefinition _ _ hrun
    have hstate := hstate state rfl
    obtain ⟨-, hknown, -⟩ | ⟨ho, -⟩ := complete_ensures P state _ _ hback
    swap
    · exact absurd ho (by simp)
    obtain ⟨_, -, result, hreplies, hid, houtcome⟩ :=
      (complete_outcome P hbuilding hall _ _ hback hbackAdmitted).resolve_left hknown
    refine Or.inl
      ⟨rfl, (state.identifier, replyBytes P result), ?_, hstate.identifier_eq, result, rfl,
      hid.trans hstate.transactionID_eq, ?_⟩
    · show replies (front ++ _) = _
      rw [replies_append, show replies front = [] from htried, replies_cons_of_none rfl, hreplies]
      rfl
    · show Outcome _ _ _ ((ndbContract C).after s (front ++ _)).contents
      rw [Contract.after_append]
      exact houtcome
  | @aborted front back state f hrun polls hback =>
    obtain ⟨htried, -⟩ := execute_tried P hne hdefinition _ _ hrun
    obtain ⟨ho, -⟩ | ⟨ho, haborts⟩ := complete_ensures P state _ _ hback
    · exact absurd ho (by simp)
    have hmeets : MeetsUnknown anyStore back := haborts.meetsUnknown _ (fun _ _ _ => trivial)
    refine Or.inr ⟨congrArg Except.error (Except.error.inj ho),
      MeetsUnknown.append_left (⟨.take t, ()⟩ :: front) (Or.inr hmeets), ?_⟩
    show replies (front ++ _) = _
    rw [replies_append, show replies front = [] from htried, replies_cons_of_none rfl,
      haborts.replies_eq]
    rfl

end NDBMessageExecutor

/-- One transaction after the other, from any ledger on which nothing is held:
all of them, or those before the one that reads a type the protocol does not
have. -/
theorem Held.transactions {P : Protobuf} {l : Ledger} (hl : Held [] none l)
    {history : List FrameMessagesTuple} (hne : ∀ t ∈ history, t.messages ≠ [])
    (hm : ∀ t ∈ history, ∀ message ∈ t.messages, message.Tellable C) {s : NdbState C}
    {trace : Trace} {o : Except Fault (List NdbTransactionState)}
    (hrun : (executeBatches P (history.map (fun t => [[t]])) []).Runs trace o)
    (hcompletes : completingContract.Admitted l trace)
    (hndb : (ndbContract C).Admitted s trace) :
    (o = .ok [] ∧ Transactions P s.contents history (replies trace)
      ((ndbContract C).after s trace).contents)
    ∨ MeetsUnknown anyStore trace ∧ ∃ finished d, finished <+: history
      ∧ Transactions P s.contents finished (replies trace) d := by
  induction history generalizing s l trace with
  | nil =>
    obtain ⟨rfl, rfl⟩ := Prog.runs_pure_iff.mp hrun
    exact Or.inl ⟨rfl, .nil _⟩
  | cons t history ih =>
    obtain ⟨hnet, hne⟩ := List.forall_mem_cons.mp hne
    obtain ⟨hmt, hm⟩ := List.forall_mem_cons.mp hm
    have hrun : Prog.Runs (executeBatch P [[t]] [] >>=
      executeBatches P (history.map (fun t => [[t]]))) trace o := hrun
    rcases Prog.runs_bind_iff.mp hrun with
      ⟨f, rfl, hf⟩ | ⟨left, front, rest, rfl, hfront, hrest⟩
    · obtain ⟨halone, -⟩ := executeBatch_alone P t hl _ _ hf hcompletes
      obtain ⟨ho, -⟩ | ⟨-, hmeets, hnone⟩ := halone.transacts P hnet hmt hndb
      · exact absurd ho (by simp)
      · refine Or.inr ⟨hmeets, [], s.contents, List.nil_prefix, ?_⟩
        rw [hnone]
        exact .nil s.contents
    · obtain ⟨hfrontCompletes, hrestCompletes⟩ := Contract.admitted_append.mp hcompletes
      obtain ⟨hfrontNdb, hrestNdb⟩ := Contract.admitted_append.mp hndb
      obtain ⟨halone, hleft⟩ := executeBatch_alone P t hl _ _ hfront hfrontCompletes
      obtain ⟨rfl, hl'⟩ := hleft left rfl
      obtain ⟨-, reply, hreply, htransacts⟩ | ⟨ho, -⟩ := halone.transacts P hnet hmt hfrontNdb
      · rw [replies_append, hreply, Contract.after_append]
        obtain ⟨ho, hall⟩ | ⟨hmeets, finished, d, hprefix, hfinished⟩ :=
          ih hl' hne hm hrest hrestCompletes hrestNdb
        · exact Or.inl ⟨ho, .cons htransacts hall⟩
        · exact Or.inr ⟨hmeets.append_left front, t :: finished, d,
            List.cons_prefix_cons.mpr ⟨rfl, hprefix⟩, .cons htransacts hfinished⟩
      · exact absurd ho (by simp)

/-- A `SET` of the row, and a `GET` for it. -/
def setOne : SetOperation :=
  ⟨[⟨ascii "t"⟩], [condition (ascii "k") (ascii "1")], [condition (ascii "v") (ascii "3")]⟩

@[inherit_doc setOne]
def getOne : GetOperation := ⟨[⟨ascii "t"⟩], [condition (ascii "k") (ascii "1")], []⟩

/-- One after the other, from one client. -/
def setThenGet : List FrameMessagesTuple :=
  [⟨ascii "x", ascii "a", [.set setOne]⟩, ⟨ascii "y", ascii "a", [.get getOne]⟩]

/-- NDB completes what is prepared, and reads the row. -/
def serving : (c : Call) → Answer c
  | .records _ => fun record =>
    if record = 0 then ⟨ascii "k", some .char, ascii "1"⟩ else ⟨ascii "v", some .char, ascii "3"⟩
  | c => answering c

/-- The run of the two. -/
abbrev served : Trace × Except Fault (List NdbTransactionState) :=
  (executeBatches wireFormat (setThenGet.map (fun t => [[t]])) []).run serving

theorem completing_served : completingContract.Admitted .empty served.1 := by
  have hidle : True ∧ True := ⟨trivial, trivial⟩
  have hnew : (0 : Nat) ∉ ([] : List Nat) := List.not_mem_nil
  have hpolls : (([[0]] : List (List Nat)).flatten.Nodup ∧ [[0]].flatten ⊆ [0])
      ∧ ([0] : List Nat) ⊆ [[0]].flatten := by decide
  exact ⟨hidle, hidle, ⟨hnew, trivial⟩, hidle, hidle, hidle, hidle, hidle, hpolls, hidle, hidle,
    hidle, hidle, hidle, ⟨hnew, trivial⟩, hidle, hidle, hidle, hidle, hidle, hidle, hidle, hpolls,
    hidle, hidle, hidle, hidle, trivial⟩

/-- What is written. -/
abbrev writtenOne : Keyed.Write Bytes Bytes Bytes :=
  .put (ascii "t") (columnPairs setOne.primaryKey) (columnPairs setOne.value)

/-- What the operation that reads it has been told. -/
abbrev toldOne : Told :=
  ⟨ascii "t", some .simpleRead, columnPairs getOne.primaryKey, [], [], [(0, 0), (1, 1)]⟩

/-- The contents of the stores once the row is set. -/
theorem exists_apply_setOne :
    ∃ d, (NdbState.empty oneCatalog).contents.apply writtenOne = some d
    ∧ ∀ row, (d (ascii "t")).select (columnPairs setOne.primaryKey) = {row} →
      row (ascii "k") = some (ascii "1") ∧ row (ascii "v") = some (ascii "3") := by
  have hkey : Keyed.IsKey (oneCatalog.keys (ascii "t")) (columnPairs setOne.primaryKey) := by decide
  have hvalues : ∀ k ∈ oneCatalog.keys (ascii "t"),
      k ∉ (columnPairs setOne.value).map Prod.fst := by decide
  obtain ⟨d, hd⟩ := Keyed.Database.exists_apply_put (d := (NdbState.empty oneCatalog).contents)
    hkey hvalues
  refine ⟨d, hd, fun row hselect => ?_⟩
  obtain ⟨-, hfind⟩ := Keyed.Database.find_of_apply_put hd
  rw [Keyed.Table.select_key (oneCatalog.keys_nodup _) hkey, hfind] at hselect
  obtain rfl := Multiset.singleton_inj.mp hselect
  exact ⟨rfl, rfl⟩

/-- The records of `serving` are those of such a row. -/
theorem holds_serving {row : Keyed.Row Bytes Bytes} (hk : row (ascii "k") = some (ascii "1"))
    (hv : row (ascii "v") = some (ascii "3")) :
    toldOne.Holds oneRow.table row (serving (.records 1)) := by
  intro record columnNo hrecord column hcolumn
  rcases List.mem_cons.mp hrecord with heq | hrecord
  · obtain ⟨rfl, rfl⟩ := Prod.mk.inj heq
    obtain rfl : (⟨ascii "k", true⟩ : TableColumn) = column := Option.some.inj hcolumn
    exact ⟨rfl, fun value hvalue => Option.some.inj (hk.symm.trans hvalue)⟩
  · obtain ⟨rfl, rfl⟩ := Prod.mk.inj (List.mem_singleton.mp hrecord)
    obtain rfl : (⟨ascii "v", false⟩ : TableColumn) = column := Option.some.inj hcolumn
    exact ⟨rfl, fun value hvalue => Option.some.inj (hv.symm.trans hvalue)⟩

theorem ndb_served : (ndbContract oneCatalog).Admitted (NdbState.empty oneCatalog) served.1 := by
  have hmake : ∀ (s : NdbState oneCatalog) (p : Nat), p ∉ s.members 0 →
      s.MayMake 0 (ascii "t") (some p) :=
    fun s p hnew p' hp => ⟨rfl, Option.some.inj hp ▸ hnew⟩
  have hrecord : (1 : Nat) ∉ [0] := by decide
  obtain ⟨d, hput, hrow⟩ := exists_apply_setOne
  have hd : (NdbState.empty oneCatalog).contents.applyAll [writtenOne] = some d := by
    show (Keyed.Database.apply _ _ >>= some) = some d
    rw [hput]
    rfl
  refine ⟨trivial, rfl, trivial, hmake _ 1 List.not_mem_nil, trivial, trivial, trivial, trivial,
    trivial, Option.isSome_of_eq_some hd, trivial, trivial, trivial, rfl, trivial, rfl,
    hmake _ 1 List.not_mem_nil, trivial, trivial, List.not_mem_nil, hrecord, trivial, trivial,
    rfl, ?_, trivial, trivial, trivial⟩
  intro _ table htable row hselect
  obtain rfl : oneRow.table = table := Option.some.inj htable
  have hselect : ((((NdbState.empty oneCatalog).contents.applyAll [writtenOne]).getD
      (NdbState.empty oneCatalog).contents) (ascii "t")).select (columnPairs setOne.primaryKey)
      = {row} := hselect
  rw [hd] at hselect
  obtain ⟨hk, hv⟩ := hrow row hselect
  exact holds_serving hk hv

theorem tellable_setThenGet :
    ∀ t ∈ setThenGet, ∀ message ∈ t.messages, message.Tellable oneCatalog := by
  refine List.forall_mem_cons.mpr ⟨List.forall_mem_singleton.mpr (List.cons_ne_nil _ _),
    List.forall_mem_singleton.mpr (List.forall_mem_singleton.mpr ?_)⟩
  exact ⟨⟨ascii "t"⟩, rfl, fun _ _ _ => List.forall_mem_nil _⟩

section Reading

variable {P : Protobuf} {d d' : C.Contents} {storeName : Bytes} {key : List (Option Bytes)}

/-- The messages write nothing under the key. -/
def Spares (C : Catalog) (storeName : Bytes) (key : List (Option Bytes))
    (messages : List Message) : Prop :=
  ∀ message ∈ messages, ∀ write ∈ message.write,
    ¬ Keyed.Database.Names C.code C.keys storeName key write

/-- A transaction leaves what it does not write. -/
theorem Outcome.find_eq {messages : List Message} {result : Result}
    (h : Outcome d messages result d') (hspares : Spares C storeName key messages) :
    (d' storeName).find key = (d storeName).find key := by
  cases h with
  | failed => rfl
  | committed hok hwrites =>
    refine Keyed.Database.find_applyAll hwrites (fun write hwrite => ?_)
    obtain ⟨message, hmessage, hwrite⟩ := List.mem_filterMap.mp hwrite
    exact hspares message hmessage write hwrite

theorem Transactions.find_eq {history : List FrameMessagesTuple} {replies : List (Bytes × Bytes)}
    (h : Transactions P d history replies d')
    (hspares : ∀ t ∈ history, Spares C storeName key t.messages) :
    (d' storeName).find key = (d storeName).find key := by
  induction h with
  | nil => rfl
  | cons h _ ih =>
    obtain ⟨ht, hhistory⟩ := List.forall_mem_cons.mp hspares
    obtain ⟨-, result, -, -, houtcome⟩ := h
    rw [ih hhistory, houtcome.find_eq ht]

theorem Transactions.length_eq {history : List FrameMessagesTuple}
    {replies : List (Bytes × Bytes)} (h : Transactions P d history replies d') :
    replies.length = history.length := by
  induction h with
  | nil => rfl
  | cons _ _ ih => rw [List.length_cons, List.length_cons, ih]

/-- A history is one part after the other. -/
theorem Transactions.of_append {front rest : List FrameMessagesTuple}
    {replies : List (Bytes × Bytes)} (h : Transactions P d (front ++ rest) replies d') :
    ∃ middle replies₁ replies₂, replies = replies₁ ++ replies₂
      ∧ Transactions P d front replies₁ middle ∧ Transactions P middle rest replies₂ d' := by
  induction front generalizing d replies with
  | nil => exact ⟨d, [], replies, rfl, .nil d, h⟩
  | cons t front ih =>
    cases h with
    | cons ht hrest =>
      obtain ⟨middle, replies₁, replies₂, rfl, h₁, h₂⟩ := ih hrest
      exact ⟨middle, _ :: replies₁, replies₂, rfl, .cons ht h₁, h₂⟩

/-- The outcome that a reply tells of. -/
theorem Transacts.outcome {t : FrameMessagesTuple} {reply : Bytes × Bytes}
    (h : Transacts P d t reply d') {result : Result} (hreply : reply.2 = replyBytes P result) :
    Outcome d t.messages result d' := by
  obtain ⟨-, result', hreply', -, houtcome⟩ := h
  rwa [replyBytes_injective P (hreply.symm.trans hreply')]

/-- The key of the row a `SET` writes. -/
abbrev SetOperation.rowKey (C : Catalog) (storeInfo : StoreInfo) (operation : SetOperation) :
    List (Option Bytes) :=
  Keyed.keyOf (C.code (cStr storeInfo.storeName)) (C.keys (cStr storeInfo.storeName))
    (columnPairs operation.primaryKey)

/-- The row is there, with the values it was given. -/
def SetOperation.IsSet (storeInfo : StoreInfo) (operation : SetOperation) (d : C.Contents) : Prop :=
  ∃ row : Keyed.Row Bytes Bytes,
    (d (cStr storeInfo.storeName)).find (operation.rowKey C storeInfo) = some row
      ∧ ∀ k v, Keyed.Row.empty.set (columnPairs operation.value) k = some v → row k = some v

/-- What a `SET` writes. -/
theorem SetOperation.write_eq {operation : SetOperation} {storeInfo : StoreInfo}
    (hstore : operation.storeInfo.head? = some storeInfo) :
    (Message.set operation).write = some (.put (cStr storeInfo.storeName)
      (columnPairs operation.primaryKey) (columnPairs operation.value)) := by
  rw [Message.write, hstore]
  rfl

theorem SetOperation.isSet_of_apply {operation : SetOperation} {storeInfo : StoreInfo}
    (h : d.apply (.put (cStr storeInfo.storeName) (columnPairs operation.primaryKey)
      (columnPairs operation.value)) = some d') : operation.IsSet storeInfo d' := by
  obtain ⟨-, hfind⟩ := Keyed.Database.find_of_apply_put h
  exact ⟨_, hfind, fun k v h => Keyed.Row.set_of_empty_set h⟩

/-- A `SET` that has succeeded. -/
theorem Outcome.isSet {operation : SetOperation} {storeInfo : StoreInfo} {result : Result}
    (hstore : operation.storeInfo.head? = some storeInfo)
    (h : Outcome d [.set operation] result d') (hok : result.errorCode = none) :
    operation.IsSet storeInfo d' := by
  cases h with
  | failed herror => exact absurd hok herror
  | committed _ hwrites =>
    rw [List.filterMap_cons_some (SetOperation.write_eq hstore)] at hwrites
    obtain ⟨d₁, hput, hnil⟩ := Option.bind_eq_some_iff.mp hwrites
    obtain rfl := Option.some.inj hnil
    exact SetOperation.isSet_of_apply hput

/-- The way of a `GET` by the primary key, and its conditions. -/
theorem GetOperation.path_of_isKey {operation : GetOperation} {storeName : Bytes} {table : Table}
    (htable : C.table storeName = some table)
    (hkey : Keyed.IsKey (C.keys storeName) (columnPairs operation.primaryKey)) :
    operation.path table = .simpleRead
      ∧ operation.conditions table = columnPairs operation.primaryKey := by
  have hlength : operation.primaryKey.length = table.getNoOfPrimaryKeys := by
    have hperm := List.Perm.length_eq hkey
    rwa [Catalog.keys_of_table htable, Table.length_keyNames, List.length_map, columnPairs,
      List.length_map] at hperm
  have hpath : operation.path table = .simpleRead := if_pos hlength
  exact ⟨hpath, by rw [GetOperation.conditions, hpath]⟩

/-- The rows of a `GET` by the primary key, where there is a row. -/
theorem ReadsRows.of_isKey {operation : GetOperation} {storeName : Bytes} {table : Table}
    {rows : List Row} {row : Keyed.Row Bytes Bytes}
    (h : ReadsRows d storeName table operation rows) (htable : C.table storeName = some table)
    (hkey : Keyed.IsKey (C.keys storeName) (columnPairs operation.primaryKey))
    (hfind : (d storeName).find (Keyed.keyOf (C.code storeName) (C.keys storeName)
      (columnPairs operation.primaryKey)) = some row) :
    ∃ shown, rows = [shown] ∧ Shown table row shown := by
  obtain ⟨hpath, hconditions⟩ := GetOperation.path_of_isKey htable hkey
  unfold ReadsRows at h
  rw [if_pos hpath, hconditions, Keyed.Table.select_key (C.keys_nodup _) hkey, hfind] at h
  exact h row rfl

/-- A `GET` by the primary key that has succeeded. -/
theorem Outcome.rows_of_get {operation : GetOperation} {storeInfo : StoreInfo} {table : Table}
    {result : Result} {row : Keyed.Row Bytes Bytes}
    (hstore : operation.storeInfo.head? = some storeInfo)
    (htable : C.table (cStr storeInfo.storeName) = some table)
    (hkey : Keyed.IsKey (C.keys (cStr storeInfo.storeName)) (columnPairs operation.primaryKey))
    (h : Outcome d [.get operation] result d') (hok : result.errorCode = none)
    (hfind : (d (cStr storeInfo.storeName)).find
        (Keyed.keyOf (C.code (cStr storeInfo.storeName)) (C.keys (cStr storeInfo.storeName))
          (columnPairs operation.primaryKey)) = some row) :
    ∃ shown, result.result = [⟨[shown], .get⟩] ∧ Shown table row shown := by
  cases h with
  | failed herror => exact absurd hok herror
  | committed _ hwrites htypes hreads =>
    obtain ⟨r, hresult⟩ : ∃ r, result.result = [r] := by
      have hlen := congrArg List.length htypes
      rw [List.length_map, List.length_map] at hlen
      exact List.length_eq_one_iff.mp hlen
    rw [hresult] at htypes hreads
    obtain ⟨hread, -⟩ := List.forall₂_cons.mp (hreads rfl)
    obtain ⟨storeInfo', table', hstore', htable', hrows⟩ := hread
    obtain rfl : storeInfo = storeInfo' := Option.some.inj (hstore.symm.trans hstore')
    obtain rfl : table = table' := Option.some.inj (htable.symm.trans htable')
    obtain ⟨shown, hrow, hshown⟩ := hrows.of_isKey htable hkey hfind
    obtain ⟨rows, type⟩ := r
    refine ⟨shown, ?_, hshown⟩
    rw [hresult, show rows = [shown] from hrow, show type = .get from List.singleton_inj.mp htypes]

/-- **The `GET` asks for the row the `SET` writes**, by its primary key. -/
structure AsksFor (C : Catalog) (storeInfo : StoreInfo) (table : Table)
    (setOperation : SetOperation) (getOperation : GetOperation) : Prop where
  set_store : setOperation.storeInfo.head? = some storeInfo
  get_store : getOperation.storeInfo.head? = some storeInfo
  table_eq : C.table (cStr storeInfo.storeName) = some table
  isKey : Keyed.IsKey (C.keys (cStr storeInfo.storeName)) (columnPairs getOperation.primaryKey)
  key_eq : Keyed.keyOf (C.code (cStr storeInfo.storeName)) (C.keys (cStr storeInfo.storeName))
      (columnPairs getOperation.primaryKey) = setOperation.rowKey C storeInfo

/-- **The row of a result has what was set**: the columns of the table, and in
those that were given values the last of these. -/
def HasSet (table : Table) (values : List (Bytes × Bytes)) (shown : Row) : Prop :=
  shown.column.map (·.name) = table.columns.map (·.name)
    ∧ ∀ value ∈ shown.column, ∀ v, Keyed.Row.empty.set values value.name = some v →
      value.value = v

theorem Shown.hasSet {table : Table} {row : Keyed.Row Bytes Bytes} {shown : Row}
    {values : List (Bytes × Bytes)} (h : Shown table row shown)
    (hrow : ∀ k v, Keyed.Row.empty.set values k = some v → row k = some v) :
    HasSet table values shown := by
  obtain ⟨columns⟩ := shown
  unfold Shown at h
  unfold HasSet
  dsimp only at h ⊢
  generalize table.columns = names at h ⊢
  induction h with
  | nil => exact ⟨rfl, fun _ hvalue => absurd hvalue List.not_mem_nil⟩
  | cons hcolumn _ ih =>
    refine ⟨congrArg₂ List.cons hcolumn.1 ih.1, List.forall_mem_cons.mpr ⟨fun v hv => ?_, ih.2⟩⟩
    exact hcolumn.2 v (hrow _ v (hcolumn.1 ▸ hv))

/-- **A client reads what it has written**, in any history of transactions:
where a `SET` has succeeded, and a later `GET` for its row has, and no
transaction between them wrote this row. -/
theorem Transactions.reads_what_was_set {front middle rest : List FrameMessagesTuple}
    {setter getter : FrameMessagesTuple} {setOperation : SetOperation}
    {getOperation : GetOperation} {storeInfo : StoreInfo} {table : Table}
    {replies : List (Bytes × Bytes)} {setResult getResult : Result}
    (h : Transactions P d (front ++ setter :: (middle ++ getter :: rest)) replies d')
    (hsetter : setter.messages = [.set setOperation])
    (hgetter : getter.messages = [.get getOperation])
    (hasks : AsksFor C storeInfo table setOperation getOperation)
    (hspares : ∀ t ∈ middle,
      Spares C (cStr storeInfo.storeName) (setOperation.rowKey C storeInfo) t.messages)
    (hset : replies[front.length]? = some (setter.identifier, replyBytes P setResult))
    (hsetOk : setResult.errorCode = none)
    (hget : replies[front.length + 1 + middle.length]?
      = some (getter.identifier, replyBytes P getResult))
    (hgetOk : getResult.errorCode = none) :
    ∃ shown, getResult.result = [⟨[shown], .get⟩]
      ∧ HasSet table (columnPairs setOperation.value) shown := by
  obtain ⟨d₁, replies₁, replies₂, rfl, hfront, hrest⟩ := h.of_append
  cases hrest with
  | @cons _ d₂ _ _ setReply _ replies₂ hsets hrest =>
    obtain ⟨d₃, replies₃, replies₄, rfl, hmiddle, hrest⟩ := hrest.of_append
    cases hrest with
    | @cons _ d₄ _ _ getReply _ replies₄ hgets hrest =>
      -- the two replies are those at their places
      rw [← hfront.length_eq, List.getElem?_append_right (Nat.le_refl _), Nat.sub_self,
        List.getElem?_cons_zero, Option.some.injEq] at hset
      rw [← hfront.length_eq, ← hmiddle.length_eq, Nat.add_assoc,
        List.getElem?_append_right (Nat.le_add_right _ _), Nat.add_sub_cancel_left, Nat.add_comm 1,
        List.getElem?_cons_succ, List.getElem?_append_right (Nat.le_refl _), Nat.sub_self,
        List.getElem?_cons_zero, Option.some.injEq] at hget
      have hsetOutcome := hsets.outcome (congrArg Prod.snd hset)
      have hgetOutcome := hgets.outcome (congrArg Prod.snd hget)
      rw [hsetter] at hsetOutcome
      rw [hgetter] at hgetOutcome
      obtain ⟨row, hfind, hrow⟩ := hsetOutcome.isSet hasks.set_store hsetOk
      rw [← hmiddle.find_eq hspares, ← hasks.key_eq] at hfind
      obtain ⟨shown, hresult, hshown⟩ := hgetOutcome.rows_of_get hasks.get_store hasks.table_eq
        hasks.isKey hgetOk hfind
      exact ⟨shown, hresult, hshown.hasSet hrow⟩

end Reading

/-- **A client reads what it has written**, from a server that has it alone:
in every run of an executor that is given one transaction at a time. -/
theorem executeBatches_reads_what_was_set {P : Protobuf}
    {front middle rest : List FrameMessagesTuple} {setter getter : FrameMessagesTuple}
    {setOperation : SetOperation} {getOperation : GetOperation} {storeInfo : StoreInfo}
    {table : Table} {setResult getResult : Result}
    (hne : ∀ t ∈ front ++ setter :: (middle ++ getter :: rest), t.messages ≠ [])
    (hm : ∀ t ∈ front ++ setter :: (middle ++ getter :: rest),
      ∀ message ∈ t.messages, message.Tellable C) {s : NdbState C}
    {trace : Trace} {o : Except Fault (List NdbTransactionState)}
    (hrun : (executeBatches P
      ((front ++ setter :: (middle ++ getter :: rest)).map (fun t => [[t]])) []).Runs trace o)
    (hcompletes : completingContract.Admitted .empty trace)
    (hndb : (ndbContract C).Admitted s trace)
    (hsetter : setter.messages = [.set setOperation])
    (hgetter : getter.messages = [.get getOperation])
    (hasks : AsksFor C storeInfo table setOperation getOperation)
    (hspares : ∀ t ∈ middle,
      Spares C (cStr storeInfo.storeName) (setOperation.rowKey C storeInfo) t.messages)
    (hset : (replies trace)[front.length]? = some (setter.identifier, replyBytes P setResult))
    (hsetOk : setResult.errorCode = none)
    (hget : (replies trace)[front.length + 1 + middle.length]?
      = some (getter.identifier, replyBytes P getResult))
    (hgetOk : getResult.errorCode = none) :
    ∃ shown, getResult.result = [⟨[shown], .get⟩]
      ∧ HasSet table (columnPairs setOperation.value) shown := by
  obtain ⟨-, h⟩ | ⟨-, finished, d, hprefix, h⟩ :=
    held_empty.transactions hne hm hrun hcompletes hndb
  · exact h.reads_what_was_set hsetter hgetter hasks hspares hset hsetOk hget hgetOk
  · -- the reply to the `GET` is among those to the transactions that have ended
    have hlength : front.length + 1 + middle.length < finished.length := by
      rw [← h.length_eq]
      exact (List.getElem?_eq_some_iff.mp hget).1
    have hget' : front ++ setter :: (middle ++ [getter]) <+: finished := by
      refine List.prefix_of_prefix_length_le ⟨rest, by simp⟩ hprefix ?_
      simp only [List.length_append, List.length_cons, List.length_nil]
      omega
    obtain ⟨rest', rfl⟩ := hget'
    rw [List.append_assoc, List.cons_append, List.append_assoc, List.singleton_append] at h
    exact h.reads_what_was_set hsetter hgetter hasks hspares hset hsetOk hget hgetOk

/-- The result of the `GET`. -/
def rowOne : Result :=
  { makeResult (ascii "y") with
    result := [⟨[⟨[⟨ascii "k", some .char, none, none, ascii "1"⟩,
      ⟨ascii "v", some .char, none, none, ascii "3"⟩]⟩], .get⟩] }

/-- The client that has set the row gets it. -/
theorem executeBatches_reads_what_was_set_one :
    (replies served.1)[1]? = some (ascii "a", replyBytes wireFormat rowOne)
      ∧ ∃ shown, rowOne.result = [⟨[shown], .get⟩]
        ∧ HasSet oneRow.table (columnPairs setOne.value) shown := by
  have hne : ∀ t ∈ ([] : List FrameMessagesTuple) ++ ⟨ascii "x", ascii "a", [.set setOne]⟩
      :: (([] : List FrameMessagesTuple) ++ ⟨ascii "y", ascii "a", [.get getOne]⟩ :: []),
      t.messages ≠ [] := by decide
  have hasks : AsksFor oneCatalog ⟨ascii "t"⟩ oneRow.table setOne getOne :=
    ⟨rfl, rfl, rfl, by decide, rfl⟩
  have hset : (replies served.1)[0]? = some (ascii "a", replyBytes wireFormat
      { makeResult (ascii "x") with result := [⟨[], .set⟩] }) := rfl
  have hget : (replies served.1)[1]? = some (ascii "a", replyBytes wireFormat rowOne) := rfl
  exact ⟨hget, executeBatches_reads_what_was_set hne tellable_setThenGet
    (Prog.runs_run serving _) completing_served ndb_served rfl rfl hasks
    (List.forall_mem_nil _) hset rfl hget rfl⟩

end VoloDB
