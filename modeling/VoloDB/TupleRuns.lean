import VoloDB.Reading

/-!
# The life of a tuple

One turn of the loop over the messages ends in one of four ways, which
`MessageRun` lists: a definition operation is answered, a manipulation
operation is added to the transaction, the failure to add one is answered
and ends the loop, or the turn leaves the defined behaviour. What follows
the loop is either nothing or a transaction that is committed, or not, and
then answered.

`serveFrom` is all that is still to come for a tuple at some turn of the
loop. `ensures_serveFrom_cons` is its rule for one turn, and the induction
over the remaining messages is done with it by everything about tuples.
-/

namespace VoloDB

open Interaction FrameUtils NDBMessageProcessor

/-- The messages whose query is sent to MySQL: a `CREATE_STORE` needs a
column with a primary key flag and one with a distribution key flag. -/
def Message.applicable : Message → Bool
  | .createDatabase _ | .dropDatabase _ | .dropStore _ => true
  | .createStore operation =>
    !(NDBMessageExecutor.primaryKeyNames operation).isEmpty
      && !(NDBMessageExecutor.distributionKeyNames operation).isEmpty
  | _ => false

theorem Message.isDefinitionFrame_of_applicable {message : Message}
    (h : message.applicable = true) : isDefinitionFrame message = true := by
  cases message <;> first | rfl | exact absurd h Bool.false_ne_true

namespace NDBMessageExecutor

variable (P : Protobuf)

/-! ## Looking a table up -/

/-- The run has found this table under the name of a store, in the cache or
in the dictionary. -/
def Finds (storeName : Bytes) (table : Table) (trace : Trace) : Prop :=
  (⟨.cacheGet storeName, some table⟩ : Event Answer) ∈ trace
    ∨ (⟨.getTable (cStr storeName), some table⟩ : Event Answer) ∈ trace

theorem tableInfoOf_returns (storeName : Bytes) :
    (tableInfoOf storeName storeName).Returns (fun trace found =>
      (∀ e ∈ trace, e.1.isLookup = true) ∧ ∀ table ∈ found, Finds storeName table trace) := by
  refine Prog.ensures_call.mpr (fun cached => ?_)
  cases cached with
  | some table =>
    refine Prog.returns_pure ⟨fun e he => ?_, fun found hfound => ?_⟩
    · rw [List.mem_singleton.mp he]
      rfl
    · rw [Option.mem_some_iff.mp hfound]
      exact Or.inl List.mem_cons_self
  | none =>
    refine Prog.ensures_call.mpr (fun looked => ?_)
    cases looked with
    | none =>
      refine Prog.returns_pure ⟨?_, fun found hfound => nomatch hfound⟩
      exact List.forall_mem_cons.mpr ⟨rfl, List.forall_mem_singleton.mpr rfl⟩
    | some table =>
      refine Prog.ensures_call.mpr (fun _ => Prog.returns_pure ⟨?_, fun found hfound => ?_⟩)
      · exact List.forall_mem_cons.mpr ⟨rfl, List.forall_mem_cons.mpr
          ⟨rfl, List.forall_mem_singleton.mpr rfl⟩⟩
      · rw [Option.mem_some_iff.mp hfound]
        exact Or.inr (List.mem_cons_of_mem _ List.mem_cons_self)

/-! ## Definition operations -/

/-- What a definition operation is answered with, and has changed. -/
structure Defines (message : Message) (transactionID : Bytes) (result : Result)
    (trace : Trace) : Prop where
  replies_eq : replies trace = []
  id_eq : result.transactionIdentifier = transactionID
  journal_eq : journal trace = if result.errorCode = none then message.effect.toList else []
  failed : message.applicable = false → result.errorCode ≠ none

theorem runQuery_returns (text transactionID : Bytes) :
    (runQuery text transactionID).Returns (fun trace result =>
      result.transactionIdentifier = transactionID ∧ replies trace = []
        ∧ journal trace
            = if result.errorCode = none then [.query (cStr text)] else []) := by
  refine Prog.ensures_call.mpr (fun error => ?_)
  cases error with
  | none => exact Prog.returns_pure ⟨rfl, rfl, rfl⟩
  | some error => exact Prog.returns_pure ⟨rfl, rfl, rfl⟩

theorem executeDropStore_returns (operation : DropStoreOperation) (transactionID : Bytes) :
    (executeDropStore operation transactionID).Returns (fun trace result =>
      Defines (.dropStore operation) transactionID result trace) := by
  refine (runQuery_returns _ transactionID).bind ?_
  rintro front result ⟨hid, hreplies, hjournal⟩
  cases herr : result.errorCode with
  | some code =>
    rw [herr] at hjournal
    refine Prog.returns_pure ⟨?_, hid, ?_, fun h => nomatch h⟩
    · rw [List.append_nil, hreplies]
    · rw [List.append_nil, hjournal, herr]
      rfl
  | none =>
    rw [herr] at hjournal
    refine Prog.ensures_call.mpr (fun _ => Prog.returns_pure ⟨?_, hid, ?_, fun h => nomatch h⟩)
    · rw [replies_append, hreplies]
      rfl
    · rw [journal_append, hjournal, herr]
      rfl

/-- The operations that come to a query, and to nothing else. -/
theorem runQuery_defines {message : Message} {text : Bytes}
    (heffect : message.effect = some (.query (cStr text))) (happlicable : message.applicable = true)
    (transactionID : Bytes) :
    (runQuery text transactionID).Returns (fun trace result =>
      Defines message transactionID result trace) := by
  refine (runQuery_returns text transactionID).mono ?_
  rintro trace result ⟨hid, hreplies, hjournal⟩
  refine ⟨hreplies, hid, ?_, fun h => absurd (happlicable.symm.trans h) (by decide)⟩
  rw [hjournal, heffect]
  rfl

theorem executeCreateStore_returns (operation : CreateStoreOperation) (transactionID : Bytes) :
    (executeCreateStore operation transactionID).Returns (fun trace result =>
      Defines (.createStore operation) transactionID result trace) := by
  unfold executeCreateStore
  split
  · exact Prog.returns_pure ⟨rfl, rfl, rfl, fun _ => by simp [makeResultForError]⟩
  · next hp =>
    split
    · exact Prog.returns_pure ⟨rfl, rfl, rfl, fun _ => by simp [makeResultForError]⟩
    · next hk => exact runQuery_defines rfl (by simp [Message.applicable, hp, hk]) transactionID

/-- **The run of a definition operation.** -/
theorem executeDefinition_returns (message : Message) (transactionID : Bytes)
    (hd : isDefinitionFrame message = true) :
    (executeDefinition message transactionID).Returns (fun trace o =>
      ∃ result, o = some result ∧ Defines message transactionID result trace) := by
  have hmap : ∀ {p : Exec Result} {D : Result → Trace → Prop},
      p.Returns (fun trace result => D result trace) →
      (some <$> p).Returns (fun trace o => ∃ result, o = some result ∧ D result trace) :=
    fun hp => hp.map (fun _ result hD => ⟨result, rfl, hD⟩)
  cases message with
  | createDatabase operation => exact hmap (runQuery_defines rfl rfl transactionID)
  | dropDatabase operation => exact hmap (runQuery_defines rfl rfl transactionID)
  | createStore operation => exact hmap (executeCreateStore_returns operation transactionID)
  | dropStore operation => exact hmap (executeDropStore_returns operation transactionID)
  | _ => exact absurd hd (by simp [isDefinitionFrame, getFrameType])

/-! ## One turn of the loop -/

/-- **The ways one turn of the loop can end.** -/
inductive MessageRun (messagesTuple : FrameMessagesTuple) (s : LoopState)
    (message : Message) : Trace → Except Fault (Option LoopState) → Prop where
  /-- A definition operation has been run, or has failed, and is answered. -/
  | answered {trace : Trace} (result : Result)
      (hd : isDefinitionFrame message = true)
      (hreplies : replies trace = [(messagesTuple.identifier, replyBytes P result)])
      (hid : result.transactionIdentifier = messagesTuple.transactionID)
      (hjournal : journal trace
        = if result.errorCode = none then message.effect.toList else [])
      (hfailed : message.applicable = false → result.errorCode ≠ none) :
      MessageRun messagesTuple s message trace (.ok (some s))
  /-- A manipulation operation has been added to the transaction. -/
  | added {trace : Trace} (transaction : Nat) (operation : OperationState)
      (hm : message.isManipulation = true) (hs : message.storeInfos ≠ [])
      (hadds : Adds message operation)
      (hprep : ∀ e ∈ trace, e.1.isPreparation = true) :
      MessageRun messagesTuple s message trace
        (.ok (some ⟨some transaction, s.transactionOperations ++ [operation]⟩))
  /-- An operation could not be added, which is answered. -/
  | broke {trace : Trace} (result : Result)
      (hd : isDefinitionFrame message = false)
      (hreplies : replies trace = [(messagesTuple.identifier, replyBytes P result)])
      (hid : result.transactionIdentifier = messagesTuple.transactionID)
      (herror : result.errorCode ≠ none)
      (hjournal : journal trace = []) :
      MessageRun messagesTuple s message trace (.ok none)
  | faulted {trace : Trace} (f : Fault)
      (hm : message.isManipulation = true)
      (hfault : MayFault message f)
      (hprep : ∀ e ∈ trace, e.1.isPreparation = true) :
      MessageRun messagesTuple s message trace (.error f)

theorem failureResult_returns (transactionID : Bytes) (transaction : Option Nat) :
    (failureResult transactionID transaction).Returns (fun trace result =>
      (∀ e ∈ trace, e.1.isPreparation = true)
        ∧ result.transactionIdentifier = transactionID ∧ result.errorCode ≠ none) := by
  refine (prepares_of_operates (operates_failureResult transactionID transaction)).returns ?_
  cases transaction with
  | none => exact ⟨rfl, by simp [makeResultForError]⟩
  | some transaction => exact fun _ _ => ⟨rfl, by simp [makeResultForError]⟩

/-- An operation that lacks its store is never added. -/
theorem executeManipulation_of_lacksStore {message : Message} (h : message.LacksStore)
    (transaction : Option Nat) :
    executeManipulation message transaction = .fault .storeInfo := by
  obtain ⟨hm, hs⟩ := h
  cases message with
  | set operation =>
    show manipulate operation.storeInfo _ _ _ = _
    rw [show operation.storeInfo = [] from hs]
    rfl
  | delete operation =>
    show manipulate operation.storeInfo _ _ _ = _
    rw [show operation.storeInfo = [] from hs]
    rfl
  | get operation =>
    show manipulate operation.storeInfo _ _ _ = _
    rw [show operation.storeInfo = [] from hs]
    rfl
  | _ => exact absurd hm Bool.false_ne_true

/-- A message of no known operation is never added. -/
theorem executeManipulation_of_not_isManipulation {message : Message}
    (h : message.isManipulation = false) (transaction : Option Nat) :
    executeManipulation message transaction = Prog.pure (transaction, none) := by
  cases message <;> first | rfl | exact absurd h (by simp [Message.isManipulation])

/-- **The run of a manipulation operation.** It prepares; it faults only as
its message may; and what it adds, it adds for a message that names a
store, to a transaction. -/
theorem executeManipulation_ensures (message : Message) (transaction : Option Nat) :
    (executeManipulation message transaction).Ensures (fun trace o =>
      (∀ e ∈ trace, e.1.isPreparation = true) ∧ match o with
        | .error f => message.isManipulation = true ∧ MayFault message f
        | .ok r => ∀ operation, r.2 = some operation → message.isManipulation = true
            ∧ message.storeInfos ≠ [] ∧ r.1.isSome = true ∧ Adds message operation) := by
  intro trace o hr
  obtain ⟨hprep, hfault⟩ := (prepares_executeManipulation message transaction).ensures _ _ hr
  have hv := (yields_executeManipulation message transaction).ensures _ _ hr
  refine ⟨hprep, ?_⟩
  cases hm : message.isManipulation with
  | false =>
    rw [executeManipulation_of_not_isManipulation hm] at hr
    rw [(Prog.runs_pure_iff.mp hr).2]
    exact fun operation h => nomatch h
  | true =>
    by_cases hs : message.storeInfos = []
    · rw [executeManipulation_of_lacksStore ⟨hm, hs⟩] at hr
      rw [(Prog.runs_fault_iff.mp hr).2]
      exact ⟨rfl, Or.inl ⟨rfl, hm, hs⟩⟩
    · cases o with
      | error f => exact ⟨rfl, hfault f rfl⟩
      | ok r => exact fun operation h => ⟨rfl, hs, hv r rfl operation h⟩

/-- **Every turn of the loop is one of these.** -/
theorem executeMessage_cases (messagesTuple : FrameMessagesTuple) (s : LoopState)
    (message : Message) :
    (executeMessage P messagesTuple s message).Ensures
      (MessageRun P messagesTuple s message) := by
  unfold executeMessage
  cases hd : isDefinitionFrame message with
  | true =>
    rw [if_pos rfl]
    refine (executeDefinition_returns message messagesTuple.transactionID hd).bind ?_
    rintro front _ ⟨result, rfl, hdef⟩
    rw [replyWithResult_eq, Prog.call_bind, Prog.ensures_call]
    intro _
    refine Prog.ensures_pure.mpr (.answered result hd ?_ hdef.id_eq ?_ hdef.failed)
    · rw [replies_append, hdef.replies_eq]
      rfl
    · rw [journal_append, hdef.journal_eq]
      exact List.append_nil _
  | false =>
    rw [if_neg Bool.false_ne_true]
    refine (executeManipulation_ensures message s.transaction).bind ?_ ?_
    · rintro trace f ⟨hprep, hm, hfault⟩
      exact .faulted f hm hfault hprep
    · rintro front ⟨transaction, newOperation⟩ ⟨hprep, hv⟩
      cases newOperation with
      | some operation =>
        obtain ⟨hm, hs, hsome, hadds⟩ := hv operation rfl
        obtain ⟨t, rfl⟩ := Option.isSome_iff_exists.mp hsome
        refine Prog.ensures_pure.mpr ?_
        rw [List.append_nil]
        exact .added t operation hm hs hadds hprep
      | none =>
        refine (failureResult_returns messagesTuple.transactionID transaction).bind ?_
        rintro middle result ⟨hprep', hid, herror⟩
        rw [replyWithResult_eq, Prog.call_bind, Prog.ensures_call]
        intro _
        refine Prog.ensures_pure.mpr (.broke _ hd ?_ hid herror ?_)
        · rw [replies_append, replies_append, replies_of_isPreparation hprep,
            replies_of_isPreparation hprep']
          rfl
        · rw [journal_append, journal_append, journal_of_isPreparation hprep,
            journal_of_isPreparation hprep']
          rfl

/-- **A turn of the loop commits nothing**: the callback comes after the loop. -/
theorem executeMessage_commits (messagesTuple : FrameMessagesTuple) (s : LoopState)
    (message : Message) :
    (executeMessage P messagesTuple s message).Ensures (fun trace _ =>
      ∀ e ∈ trace, committedBy e = []) := by
  have hwithin : (executeMessage P messagesTuple s message).Within
      (fun c => ∀ r : Answer c, committedBy ⟨c, r⟩ = []) (fun _ => True) := by
    have hprep : ∀ c : Call, c.isPreparation = true → ∀ r : Answer c, committedBy ⟨c, r⟩ = [] :=
      fun c hc r => committedBy_of_isPreparation (e := ⟨c, r⟩) hc
    unfold executeMessage
    split
    · refine ((queries_executeDefinition message messagesTuple.transactionID).mono
        (fun c hc => ?_) (fun _ hf => hf)).bind (fun result => ?_)
      · cases c <;> first | exact fun _ => rfl | exact absurd hc Bool.false_ne_true
      · rw [replyWithResult_eq]
        exact ⟨fun _ => rfl, fun _ => trivial⟩
    · refine ((prepares_executeManipulation message s.transaction).mono hprep
        (fun _ _ => trivial)).bind ?_
      rintro ⟨transaction, newOperation⟩
      cases newOperation with
      | some newOperation => trivial
      | none =>
        refine ((prepares_of_operates (operates_failureResult messagesTuple.transactionID
          transaction)).mono hprep (fun _ hf => hf)).bind (fun result => ?_)
        rw [replyWithResult_eq]
        exact ⟨fun _ => rfl, fun _ => trivial⟩
  exact hwithin.ensures.mono (fun trace _ h e he => h.1 e he e.2)

/-! ## The end of the loop -/

/-- What comes after the last turn. -/
def finish (messagesTuple : FrameMessagesTuple) (s : LoopState) : Exec Unit :=
  match s.transaction with
  | none => return ()
  | some transaction => do
    let state : NdbTransactionState := ⟨transaction, messagesTuple.transactionID,
      messagesTuple.identifier, s.transactionOperations⟩
    perform (.executeAsynchPrepare state)
    complete P state

/-- **What is to come for a tuple** whose loop still has these messages
before it. -/
def serveFrom (messagesTuple : FrameMessagesTuple) : List Message → LoopState → Exec Unit
  | [], s => finish P messagesTuple s
  | message :: messages, s => do
    let next ← executeMessage P messagesTuple s message
    match next with
    | none => return ()
    | some s => serveFrom messagesTuple messages s

/-- How `execute` ends after its loop. -/
def prepare (messagesTuple : FrameMessagesTuple) :
    Option LoopState → Exec (Option NdbTransactionState)
  | some ⟨some transaction, transactionOperations⟩ => do
    let state : NdbTransactionState := ⟨transaction, messagesTuple.transactionID,
      messagesTuple.identifier, transactionOperations⟩
    perform (.executeAsynchPrepare state)
    return some state
  | _ => return none

/-- The callback of what has been prepared. -/
def completePrepared : Option NdbTransactionState → Exec Unit
  | none => return ()
  | some state => complete P state

theorem serveFrom_eq (messagesTuple : FrameMessagesTuple) (messages : List Message)
    (s : LoopState) :
    (executeMessages P messagesTuple messages s >>= prepare messagesTuple)
        >>= completePrepared P
      = serveFrom P messagesTuple messages s := by
  induction messages generalizing s with
  | nil =>
    obtain ⟨transaction, operations⟩ := s
    cases transaction <;> rfl
  | cons message messages ih =>
    unfold executeMessages serveFrom
    rw [Prog.bind_assoc, Prog.bind_assoc]
    refine congrArg (Bind.bind (executeMessage P messagesTuple s message)) ?_
    funext next
    cases next with
    | none => rfl
    | some s => exact (Prog.bind_assoc _ _ _).symm.trans (ih s)

/-- The life of a tuple is what is to come at the first turn. -/
theorem serve_eq (messagesTuple : FrameMessagesTuple) :
    serve P messagesTuple
      = serveFrom P messagesTuple messagesTuple.messages ⟨none, []⟩ := by
  rw [← serveFrom_eq]
  rfl

/-- The answer to a transaction, with what its commit changes. -/
structure Completes (state : NdbTransactionState) (result : Result) (trace : Trace) :
    Prop where
  replies_eq : replies trace = [(state.identifier, replyBytes P result)]
  id_eq : result.transactionIdentifier = state.transactionID
  journal_eq : journal trace
    = if result.errorCode = none then
        state.operations.filterMap (fun o => o.operation.effect)
      else []
  /-- The answer tells an error exactly when the commit failed. -/
  callback_mem : (⟨.callback state,
    if result.errorCode = none then ReturnCode.ok else ReturnCode.failed⟩ : Event Answer)
      ∈ trace

/-- What is left behind where the assertion on a column type ends the server:
the commit has had its effects, and there is no answer. -/
structure Aborts (state : NdbTransactionState) (trace : Trace) : Prop where
  replies_eq : replies trace = []
  journal_eq : journal trace = state.operations.filterMap (fun o => o.operation.effect)
  callback_mem : (⟨.callback state, ReturnCode.ok⟩ : Event Answer) ∈ trace
  /-- The type is met at one of the stores that are read. -/
  meetsUnknown : ∀ stores, state.ReadsOnly stores → MeetsUnknown stores trace

/-- **The run of a callback**: one answer, which tells whether the commit
succeeded, unless a row that was read cannot be shown. -/
theorem complete_ensures (state : NdbTransactionState) :
    (complete P state).Ensures (fun trace o =>
      (o = .ok () ∧ ¬ MeetsUnknown anyStore trace ∧ ∃ result, Completes P state result trace)
        ∨ o = .error .columnType ∧ Aborts state trace) := by
  refine Prog.ensures_call.mpr (fun result => ?_)
  cases result with
  | failed =>
    refine Prog.ensures_call.mpr (fun ndbError => Prog.ensures_call.mpr (fun _ => ?_))
    refine Prog.ensures_call.mpr (fun _ => Prog.ensures_pure.mpr (Or.inl ⟨rfl, ?_, ?_⟩))
    · exact not_meetsUnknown (by simp [committedBy])
    · exact ⟨_, rfl, rfl, rfl, List.mem_cons_self⟩
  | ok =>
    have hprep := (prepares_of_operates (operates_operationResults state.operations
      (F := fun _ => True) trivial)).ensures
    refine ((operationResults_ensures state.operations).and hprep).bind ?_ ?_
    · rintro trace f ⟨⟨results, ho, -⟩ | ⟨ho, hunknown⟩, hprep, -⟩
      · exact absurd ho (by simp)
      · refine Or.inr ⟨congrArg Except.error (Except.error.inj ho), ?_, ?_, ?_, ?_⟩
        · rw [replies_cons_of_none rfl, replies_of_isPreparation hprep]
        · rw [journal_cons, journal_of_isPreparation hprep]
          exact List.append_nil _
        · exact List.mem_cons_self
        · exact fun stores hstores => Or.inl (hunknown.of_forall (fun o ho hget _ =>
            hstores o ho hget))
    · rintro front results ⟨⟨_, ho, hresults⟩ | ⟨ho, -⟩, hprep, -⟩
      · obtain rfl := Except.ok.inj ho
        refine Prog.ensures_call.mpr (fun _ => Prog.ensures_call.mpr (fun _ => ?_))
        refine Prog.ensures_pure.mpr (Or.inl ⟨rfl, ?_,
          { makeResult state.transactionID with result := results }, ?_, rfl, ?_,
          List.mem_cons_self⟩)
        · rw [MeetsUnknown, not_or, meetsUnknown_append_iff
            (fun e he => committedBy_of_isPreparation (hprep e he))]
          exact ⟨hresults.not_readsUnknown _, not_meetsUnknown (by simp [committedBy])⟩
        · rw [replies_cons_of_none rfl, replies_append, replies_of_isPreparation hprep]
          rfl
        · rw [journal_cons, journal_append, journal_of_isPreparation hprep]
          exact List.append_nil _
      · exact absurd ho (by simp)

/-- **The run of the end of the loop.** Without a transaction it does
nothing; with one it is answered, unless a row that was read cannot be
shown. -/
theorem finish_ensures (messagesTuple : FrameMessagesTuple) (s : LoopState) :
    (finish P messagesTuple s).Ensures (fun trace o =>
      match s.transaction with
        | none => o = .ok () ∧ trace = []
        | some transaction =>
          (o = .ok () ∧ ¬ MeetsUnknown anyStore trace ∧ ∃ result, Completes P ⟨transaction,
            messagesTuple.transactionID, messagesTuple.identifier, s.transactionOperations⟩
            result trace)
          ∨ o = .error .columnType ∧ Aborts ⟨transaction, messagesTuple.transactionID,
            messagesTuple.identifier, s.transactionOperations⟩ trace) := by
  unfold finish
  cases s.transaction with
  | none => exact Prog.ensures_pure.mpr ⟨rfl, rfl⟩
  | some transaction =>
    simp only [Prog.perform_bind, Prog.ensures_call]
    intro _
    refine (complete_ensures P _).mono ?_
    rintro trace o (⟨ho, hknown, result, hc⟩ | ⟨ho, ha⟩)
    · exact Or.inl ⟨ho, not_or.mpr ⟨not_false, hknown⟩, result, hc.replies_eq, hc.id_eq,
        hc.journal_eq, List.mem_cons_of_mem _ hc.callback_mem⟩
    · exact Or.inr ⟨ho, ha.replies_eq, ha.journal_eq, List.mem_cons_of_mem _ ha.callback_mem,
        fun stores hstores => Or.inr (ha.meetsUnknown stores hstores)⟩

/-- With a transaction open, what is left to do is to complete it. -/
theorem finish_completes (messagesTuple : FrameMessagesTuple) {s : LoopState}
    (hs : s.transaction.isSome = true) :
    (finish P messagesTuple s).Ensures (fun trace o => ∃ transaction,
      (o = .ok () ∧ ¬ MeetsUnknown anyStore trace ∧ ∃ result, Completes P ⟨transaction,
        messagesTuple.transactionID, messagesTuple.identifier, s.transactionOperations⟩
        result trace)
      ∨ o = .error .columnType ∧ Aborts ⟨transaction, messagesTuple.transactionID,
        messagesTuple.identifier, s.transactionOperations⟩ trace) := by
  obtain ⟨transaction, ht⟩ := Option.isSome_iff_exists.mp hs
  refine (finish_ensures P messagesTuple s).mono ?_
  rintro trace o hfinish
  rw [ht] at hfinish
  exact ⟨transaction, hfinish⟩

/-- **The rule for one turn**: what is to come holds `R` if every way the
turn can end leads there. -/
theorem ensures_serveFrom_cons {messagesTuple : FrameMessagesTuple} {message : Message}
    {messages : List Message} {s : LoopState} {R : Trace → Except Fault Unit → Prop}
    (hturn : ∀ trace next, MessageRun P messagesTuple s message trace (.ok (some next)) →
      (serveFrom P messagesTuple messages next).Ensures (fun rest o => R (trace ++ rest) o))
    (hbroke : ∀ trace, MessageRun P messagesTuple s message trace (.ok none) →
      R trace (.ok ()))
    (hfault : ∀ trace f, MessageRun P messagesTuple s message trace (.error f) →
      R trace (.error f)) :
    (serveFrom P messagesTuple (message :: messages) s).Ensures R := by
  refine (executeMessage_cases P messagesTuple s message).bind hfault ?_
  intro front next h
  cases next with
  | none => exact Prog.ensures_pure.mpr (by rw [List.append_nil]; exact hbroke front h)
  | some next => exact hturn front next h

/-- **The only way to meet a type the protocol does not have** is the end of
the server. -/
theorem serveFrom_ensures_meets (messagesTuple : FrameMessagesTuple)
    (messages : List Message) (s : LoopState) :
    (serveFrom P messagesTuple messages s).Ensures (fun trace o =>
      MeetsUnknown anyStore trace ↔ o = .error .columnType) := by
  induction messages generalizing s with
  | nil =>
    refine (finish_ensures P messagesTuple s).mono ?_
    intro trace o hfinish
    cases hs : s.transaction with
    | none =>
      rw [hs] at hfinish
      rw [hfinish.1, hfinish.2]
      exact iff_of_false not_false (by simp)
    | some transaction =>
      rw [hs] at hfinish
      rcases hfinish with ⟨rfl, hknown, -⟩ | ⟨rfl, ha⟩
      · exact iff_of_false hknown (by simp)
      · exact iff_of_true (ha.meetsUnknown anyStore (fun _ _ _ => trivial)) rfl
  | cons message messages ih =>
    refine ((executeMessage_cases P messagesTuple s message).and
      (executeMessage_commits P messagesTuple s message)).bind ?_ ?_
    · rintro trace f ⟨hturn, hcommits⟩
      refine iff_of_false (not_meetsUnknown hcommits) ?_
      obtain _ | _ | _ | ⟨_, _, hfault, _⟩ := hturn
      rcases hfault with ⟨rfl, -⟩ | ⟨rfl, -⟩
      · simp
      · simp
    · rintro front next ⟨-, hcommits⟩
      cases next with
      | none =>
        refine Prog.ensures_pure.mpr ?_
        rw [List.append_nil]
        exact iff_of_false (not_meetsUnknown hcommits) (by simp)
      | some next =>
        refine (ih next).mono (fun rest o h => ?_)
        rw [meetsUnknown_append_iff hcommits, h]

end NDBMessageExecutor

end VoloDB
