import VoloDB.TupleReach

/-!
# Transactions: all or nothing

The operations of an atomic request are meant as one transaction: all of
them take effect, in order, or none does. `AllOrNothing` says this of one
run, and `RunsAtomically` of every run of a tuple, whatever MySQL and NDB
answer.

The executor keeps it for manipulation operations, which one NDB commit
decides about. It does not keep it for definition operations in company: a
definition query takes effect when it is run and is not undone, and a
definition operation that fails does not stop the others. `Exposed`
collects the lists of operations for which some outcome therefore leaves a
part of the transaction behind, and `runsAtomically_iff` says that these are
all.
-/

namespace VoloDB

open Interaction FrameUtils NDBMessageExecutor

variable (P : Protobuf)

/-! ## The property -/

/-- A reply tells an error. -/
def IsErrorReply (reply : Bytes × Bytes) : Prop :=
  ∃ result, reply.2 = replyBytes P result ∧ result.errorCode ≠ none

/-- Some reply of the run tells an error. -/
def HasErrorReply (trace : Trace) : Prop := ∃ reply ∈ replies trace, IsErrorReply P reply

/-- Every operation of the run has been executed: it has come to its end, or
it is past its commit and has read a row that the reply cannot show. -/
def IsExecuted (o : Except Fault Unit) : Prop := o = .ok () ∨ o = .error .columnType

/-- **All or nothing**, of one run: it has changed nothing; or it has made
all the changes its operations ask for, in their order, has executed them all
and told no error. -/
def AllOrNothing (messages : List Message) (trace : Trace) (o : Except Fault Unit) : Prop :=
  journal trace = []
    ∨ IsExecuted o ∧ ¬ HasErrorReply P trace
      ∧ journal trace = messages.filterMap Message.effect

/-- **A tuple runs atomically**: all or nothing, for every outcome of the
calls of MySQL and NDB. -/
def RunsAtomically (messagesTuple : FrameMessagesTuple) : Prop :=
  (serve P messagesTuple).Ensures (AllOrNothing P messagesTuple.messages)

/-- A message that cannot be executed ends the run before that. -/
theorem not_isExecuted_of_mayFault {message : Message} {f : Fault} (h : MayFault message f) :
    ¬ IsExecuted (.error f) := by
  rcases h with ⟨rfl, -⟩ | ⟨rfl, -⟩
  · simp [IsExecuted]
  · simp [IsExecuted]

/-! ## Replies that tell an error -/

variable {P}

theorem isErrorReply_iff {identifier : Bytes} {result : Result} :
    IsErrorReply P (identifier, replyBytes P result) ↔ result.errorCode ≠ none := by
  constructor
  · rintro ⟨result', h, herror⟩
    rwa [replyBytes_injective P h]
  · exact fun h => ⟨result, rfl, h⟩

theorem hasErrorReply_of_replies_eq {trace : Trace} {identifier : Bytes} {result : Result}
    (h : replies trace = [(identifier, replyBytes P result)]) :
    HasErrorReply P trace ↔ result.errorCode ≠ none := by
  unfold HasErrorReply
  rw [h]
  simp only [List.mem_singleton, exists_eq_left, isErrorReply_iff]

theorem hasErrorReply_append {front rest : Trace} :
    HasErrorReply P (front ++ rest) ↔ HasErrorReply P front ∨ HasErrorReply P rest := by
  unfold HasErrorReply
  rw [replies_append]
  simp only [List.mem_append, or_and_right, exists_or]

theorem not_hasErrorReply_of_isPreparation {trace : Trace}
    (h : ∀ e ∈ trace, e.1.isPreparation = true) : ¬ HasErrorReply P trace := by
  unfold HasErrorReply
  rw [replies_of_isPreparation h]
  rintro ⟨reply, hmem, -⟩
  exact List.not_mem_nil hmem

/-! ## Where it holds -/

/-- The changes a list of operations makes when it is committed. -/
def commitEffects (operations : List OperationState) : List Effect :=
  operations.filterMap (fun o => o.operation.effect)

/-- The changes the manipulation operations of a list of messages ask for. -/
def manipulationEffects (messages : List Message) : List Effect :=
  (messages.filter Message.isManipulation).filterMap Message.effect

theorem manipulationEffects_cons_of_isDefinitionFrame {message : Message}
    {messages : List Message} (hd : isDefinitionFrame message = true) :
    manipulationEffects (message :: messages) = manipulationEffects messages := by
  unfold manipulationEffects
  rw [List.filter_cons_of_neg (Message.not_isManipulation_of_isDefinitionFrame hd)]

/-- An operation that is added for a message changes what the message asks
for. -/
theorem commitEffects_append_of_adds {message : Message} {messages : List Message}
    {operations : List OperationState} {operation : OperationState}
    (hm : message.isManipulation = true) (hadds : Adds message operation) :
    commitEffects (operations ++ [operation]) ++ manipulationEffects messages
      = commitEffects operations ++ manipulationEffects (message :: messages) := by
  unfold commitEffects manipulationEffects
  rw [List.filterMap_append, List.filter_cons_of_pos hm, List.append_assoc]
  refine congrArg (_ ++ ·) ?_
  rw [List.filterMap_cons, List.filterMap_cons, hadds.effect_eq, List.filterMap_nil]
  cases message.effect <;> rfl

/-- The messages up to the first the loop cannot go on after. -/
def passed (messages : List Message) : List Message := messages.takeWhile Message.canPass

theorem passed_cons {message : Message} {messages : List Message}
    (h : message.canPass = true) :
    passed (message :: messages) = message :: passed messages :=
  List.takeWhile_cons_of_pos h

/-- **Nothing is changed, or everything together**: what is to come for a
transaction with these operations passes all messages that are left and
commits the operations with what the messages ask for. -/
def CommitsAllOrNothing (P : Protobuf) (operations : List OperationState)
    (messages : List Message) (trace : Trace) (o : Except Fault Unit) : Prop :=
  journal trace = []
    ∨ IsExecuted o ∧ (∀ m ∈ messages, m.canPass = true)
      ∧ journal trace = commitEffects operations ++ manipulationEffects messages
      ∧ ((∀ m ∈ messages, isDefinitionFrame m = false) → ¬ HasErrorReply P trace)

theorem finish_commitsAllOrNothing (messagesTuple : FrameMessagesTuple) (s : LoopState) :
    (finish P messagesTuple s).Ensures (CommitsAllOrNothing P s.transactionOperations []) := by
  refine (finish_ensures P messagesTuple s).mono ?_
  rintro trace o hfinish
  cases hs : s.transaction with
  | none =>
    rw [hs] at hfinish
    exact Or.inl (hfinish.2 ▸ rfl)
  | some transaction =>
    rw [hs] at hfinish
    rcases hfinish with ⟨ho, -, result, hc⟩ | ⟨ho, ha⟩
    · by_cases herror : result.errorCode = none
      · refine Or.inr ⟨Or.inl ho, fun m hm => absurd hm List.not_mem_nil, ?_, fun _ => ?_⟩
        · rw [hc.journal_eq, if_pos herror]
          exact (List.append_nil _).symm
        · rw [hasErrorReply_of_replies_eq hc.replies_eq]
          exact not_not.mpr herror
      · exact Or.inl (by rw [hc.journal_eq, if_neg herror])
    · refine Or.inr ⟨Or.inr ho, fun m hm => absurd hm List.not_mem_nil, ?_, fun _ => ?_⟩
      · exact ha.journal_eq.trans (List.append_nil _).symm
      · unfold HasErrorReply
        rw [ha.replies_eq]
        exact fun ⟨reply, hmem, _⟩ => List.not_mem_nil hmem

section CommitsAllOrNothing

variable {message : Message} {messages : List Message} {front rest : Trace}
  {o : Except Fault Unit}

/-- A definition operation that has changed nothing comes before. -/
theorem CommitsAllOrNothing.answered {operations : List OperationState}
    (h : CommitsAllOrNothing P operations messages rest o)
    (hd : isDefinitionFrame message = true) (hjournal : journal front = []) :
    CommitsAllOrNothing P operations (message :: messages) (front ++ rest) o := by
  rcases h with hnone | ⟨ho, hall, heq, -⟩
  · exact Or.inl (by rw [journal_append, hjournal, hnone, List.append_nil])
  · refine Or.inr ⟨ho, List.forall_mem_cons.mpr
      ⟨Message.canPass_of_isDefinitionFrame hd, hall⟩, ?_, fun hdef => ?_⟩
    · rw [journal_append, hjournal, List.nil_append, heq,
        manipulationEffects_cons_of_isDefinitionFrame hd]
    · exact absurd (hd.symm.trans (hdef message List.mem_cons_self)) (by decide)

/-- A manipulation operation that has been added comes before. -/
theorem CommitsAllOrNothing.added {operations : List OperationState}
    {operation : OperationState}
    (h : CommitsAllOrNothing P (operations ++ [operation]) messages rest o)
    (hm : message.isManipulation = true) (hs : message.storeInfos ≠ [])
    (hadds : Adds message operation) (hprep : ∀ e ∈ front, e.1.isPreparation = true) :
    CommitsAllOrNothing P operations (message :: messages) (front ++ rest) o := by
  have hjournal := journal_of_isPreparation hprep
  rcases h with hnone | ⟨ho, hall, heq, herror⟩
  · exact Or.inl (by rw [journal_append, hjournal, hnone, List.append_nil])
  · refine Or.inr ⟨ho, List.forall_mem_cons.mpr
      ⟨Message.canPass_of_isManipulation hm hs, hall⟩, ?_, fun hdef => ?_⟩
    · rw [journal_append, hjournal, List.nil_append, heq, commitEffects_append_of_adds hm hadds]
    · rw [hasErrorReply_append, not_or]
      exact ⟨not_hasErrorReply_of_isPreparation hprep,
        herror (fun m hmem => hdef m (List.mem_cons_of_mem _ hmem))⟩

end CommitsAllOrNothing

/-- **What is to come without applicable definitions**: nothing is changed,
or every message was passed and the manipulation operations are committed
together. -/
theorem serveFrom_ensures_commit (messagesTuple : FrameMessagesTuple)
    (messages : List Message) (s : LoopState)
    (h : ∀ m ∈ passed messages, m.applicable = false) :
    (serveFrom P messagesTuple messages s).Ensures
      (CommitsAllOrNothing P s.transactionOperations messages) := by
  induction messages generalizing s with
  | nil => exact finish_commitsAllOrNothing messagesTuple s
  | cons message messages ih =>
    refine ensures_serveFrom_cons P ?_ ?_ ?_
    · intro front next hturn
      cases hturn with
      | answered result hd hreplies hid hjournal hfailed =>
        rw [passed_cons (Message.canPass_of_isDefinitionFrame hd), List.forall_mem_cons] at h
        have hfront : journal front = [] := by
          rw [hjournal, if_neg (hfailed h.1)]
        exact (ih s h.2).mono (fun _ _ hrest => hrest.answered hd hfront)
      | added transaction operation hm hs hadds hprep =>
        rw [passed_cons (Message.canPass_of_isManipulation hm hs), List.forall_mem_cons] at h
        exact (ih _ h.2).mono (fun _ _ hrest => hrest.added hm hs hadds hprep)
    · rintro trace (_ | _ | ⟨_, _, _, _, _, hjournal⟩)
      exact Or.inl hjournal
    · rintro trace f (_ | _ | _ | ⟨_, _, _, hprep⟩)
      exact Or.inl (journal_of_isPreparation hprep)

/-- A definition operation that is all there is changes something or tells
an error, not both. -/
theorem serveFrom_ensures_single (messagesTuple : FrameMessagesTuple) {message : Message}
    (h : message.applicable = true) :
    (serveFrom P messagesTuple [message] ⟨none, []⟩).Ensures (AllOrNothing P [message]) := by
  have hd := Message.isDefinitionFrame_of_applicable h
  refine ensures_serveFrom_cons P ?_ ?_ ?_
  · intro front next hturn
    cases hturn with
    | added _ _ hm =>
      exact absurd hm (Message.not_isManipulation_of_isDefinitionFrame hd)
    | answered result _ hreplies hid hjournal hfailed =>
      refine Prog.ensures_pure.mpr ?_
      rw [List.append_nil]
      by_cases herror : result.errorCode = none
      · refine Or.inr ⟨Or.inl rfl, ?_, ?_⟩
        · rw [hasErrorReply_of_replies_eq hreplies]
          exact not_not.mpr herror
        · rw [hjournal, if_pos herror, List.filterMap_cons, List.filterMap_nil]
          cases message.effect <;> rfl
      · exact Or.inl (by rw [hjournal, if_neg herror])
  · rintro trace (_ | _ | ⟨_, hd', _, _, _, _⟩)
    exact absurd (hd.symm.trans hd') (by decide)
  · rintro trace f (_ | _ | _ | ⟨_, hm, _, _⟩)
    exact absurd hm (Message.not_isManipulation_of_isDefinitionFrame hd)

/-! ## Where it does not hold -/

/-- `SET` and `DELETE`. -/
def Message.writes : Message → Bool
  | .set _ | .delete _ => true
  | _ => false

/-- **Lists of operations some outcome takes apart**: with a definition
operation that can take effect and is not alone; or with one that cannot,
and a `SET` or `DELETE` beside it. Operations that the loop never gets to
do not count. -/
def Exposed (messages : List Message) : Prop :=
  2 ≤ messages.length ∧ (∃ m ∈ passed messages, m.applicable = true)
    ∨ passed messages = messages ∧ (∃ m ∈ messages, isDefinitionFrame m = true)
      ∧ ∃ m ∈ messages, m.writes = true

instance (messages : List Message) : Decidable (Exposed messages) :=
  inferInstanceAs (Decidable (_ ∨ _))

theorem Message.isManipulation_of_writes {message : Message} (h : message.writes = true) :
    message.isManipulation = true := by
  cases message <;> first | rfl | exact absurd h Bool.false_ne_true

theorem Message.effect_ne_none_of_writes {message : Message} (h : message.writes = true)
    (hs : message.storeInfos ≠ []) : message.effect ≠ none := by
  cases message with
  | set operation =>
    obtain ⟨store, rest, hstore⟩ := List.exists_cons_of_ne_nil hs
    rw [Message.effect, show operation.storeInfo = store :: rest from hstore]
    exact Option.some_ne_none _
  | delete operation =>
    obtain ⟨store, rest, hstore⟩ := List.exists_cons_of_ne_nil hs
    rw [Message.effect, show operation.storeInfo = store :: rest from hstore]
    exact Option.some_ne_none _
  | _ => exact absurd h Bool.false_ne_true

theorem Message.effect_eq_none_of_not_writes {message : Message}
    (hm : message.isManipulation = true) (h : message.writes = false) :
    message.effect = none := by
  cases message <;> first
    | rfl
    | exact absurd hm Bool.false_ne_true
    | exact absurd h.symm Bool.false_ne_true

theorem Message.effect_ne_none_of_isDefinitionFrame {message : Message}
    (h : isDefinitionFrame message = true) : message.effect ≠ none := by
  cases message <;> first | exact Option.some_ne_none _ | exact absurd h Bool.false_ne_true

/-- **Where everything fails, a tuple that still has something to come is
told an error.** -/
theorem serveFrom_ensures_error (messagesTuple : FrameMessagesTuple)
    (messages : List Message) (s : LoopState)
    (hs : messages ≠ [] ∨ s.transaction.isSome = true) :
    (serveFrom P messagesTuple messages s).Ensures (fun trace o =>
      (∀ e ∈ trace, e.2 = failing e.1) → IsExecuted o → HasErrorReply P trace) := by
  induction messages generalizing s with
  | nil =>
    refine (finish_completes P messagesTuple (hs.resolve_left (fun h => h rfl))).mono ?_
    rintro trace o ⟨transaction, ⟨-, -, result, hc⟩ | ⟨-, ha⟩⟩ hfail -
    · rw [hasErrorReply_of_replies_eq hc.replies_eq]
      intro herror
      have hcallback := hfail _ hc.callback_mem
      rw [if_pos herror] at hcallback
      exact ReturnCode.noConfusion hcallback
    · exact ReturnCode.noConfusion (hfail _ ha.callback_mem)
  | cons message messages ih =>
    refine ensures_serveFrom_cons P ?_ ?_ ?_
    · intro front next hturn
      cases hturn with
      | answered result hd hreplies hid hjournal =>
        refine fun rest o _ hfail _ => hasErrorReply_append.mpr (Or.inl ?_)
        rw [hasErrorReply_of_replies_eq hreplies]
        intro herror
        -- the query would have changed something
        have hnone := journal_of_failing
          (fun e he => hfail e (List.mem_append_left _ he))
        rw [hjournal, if_pos herror, Option.toList_eq_nil_iff] at hnone
        exact Message.effect_ne_none_of_isDefinitionFrame hd hnone
      | added transaction operation =>
        refine (ih ⟨some transaction, _⟩ (Or.inr rfl)).mono (fun rest o h hfail ho => ?_)
        exact hasErrorReply_append.mpr
          (Or.inr (h (fun e he => hfail e (List.mem_append_right _ he)) ho))
    · rintro trace (_ | _ | ⟨_, _, hreplies, _, herror, _⟩)
      exact fun _ _ => (hasErrorReply_of_replies_eq hreplies).mpr herror
    · rintro trace f (_ | _ | _ | ⟨_, _, hfault, _⟩) - ho
      exact absurd ho (not_isExecuted_of_mayFault hfault)

/-- A definition operation that cannot take effect leaves an error among
the replies of the turns it is one of. -/
theorem NDBMessageExecutor.Turns.hasErrorReply {messagesTuple : FrameMessagesTuple}
    {messages : List Message} {s last : LoopState} {trace : Trace}
    (h : Turns P messagesTuple messages s trace last)
    (hd : ∃ m ∈ messages, isDefinitionFrame m = true ∧ m.applicable = false) :
    HasErrorReply P trace := by
  induction h with
  | nil s =>
    obtain ⟨m, hm, -⟩ := hd
    exact absurd hm List.not_mem_nil
  | cons hturn _ _ ih =>
    rw [hasErrorReply_append]
    obtain ⟨m, hm, hdef, hnot⟩ := hd
    rcases List.mem_cons.mp hm with rfl | hm
    · cases hturn with
      | answered result _ hreplies _ _ hfailed =>
        exact Or.inl ((hasErrorReply_of_replies_eq hreplies).mpr (hfailed hnot))
      | added _ _ hman =>
        exact absurd hman (Message.not_isManipulation_of_isDefinitionFrame hdef)
    · exact Or.inr (ih ⟨m, hm, hdef, hnot⟩)

/-- The operations that turns add are those of the manipulation operations
among their messages. -/
theorem NDBMessageExecutor.Turns.commitEffects_eq {messagesTuple : FrameMessagesTuple}
    {messages : List Message} {s last : LoopState} {trace : Trace}
    (h : Turns P messagesTuple messages s trace last) :
    commitEffects last.transactionOperations
      = commitEffects s.transactionOperations ++ manipulationEffects messages := by
  induction h with
  | nil s => exact (List.append_nil _).symm
  | @cons message messages s next last front rest hturn _ _ ih =>
    rw [ih]
    cases hturn with
    | answered result hd => rw [manipulationEffects_cons_of_isDefinitionFrame hd]
    | added transaction operation hm hs hadds => exact commitEffects_append_of_adds hm hadds

/-- A definition operation that takes effect before, or after, something
else is there to fail. -/
theorem can_violate_of_applicable (messagesTuple : FrameMessagesTuple)
    (hlen : 2 ≤ messagesTuple.messages.length)
    (happ : ∃ m ∈ passed messagesTuple.messages, m.applicable = true) :
    (serveFrom P messagesTuple messagesTuple.messages ⟨none, []⟩).Can
      (fun trace o => ¬ AllOrNothing P messagesTuple.messages trace o) := by
  generalize hms : messagesTuple.messages = messages at hlen happ
  obtain ⟨front, message, rest, rfl, hfront, -, happ⟩ := exists_first_of_mem_takeWhile happ
  refine can_serveFrom_append (fun m hm => (hfront m hm).1) ?_
  intro before s hturns
  refine can_serveFrom_cons ((can_apply P messagesTuple s happ).mono ?_)
  rintro applied _ ⟨rfl, hjournal⟩
  -- the query is done; from here on everything fails
  refine ⟨s, rfl, ?_⟩
  have hchanged : ∀ after, journal (before ++ (applied ++ after)) ≠ [] := by
    intro after h
    rw [journal_append, journal_append, hjournal, List.append_eq_nil_iff,
      List.append_eq_nil_iff, Option.toList_eq_nil_iff] at h
    exact Message.effect_ne_none_of_isDefinitionFrame
      (Message.isDefinitionFrame_of_applicable happ) h.2.1
  by_cases hopen : rest ≠ [] ∨ s.transaction.isSome = true
  · refine ((serveFrom_ensures_error messagesTuple rest s hopen).can failing).mono ?_
    rintro after o ⟨herror, hfail⟩ (h | ⟨ho, hnone, -⟩)
    · exact hchanged after h
    · exact hnone (hasErrorReply_append.mpr
        (Or.inr (hasErrorReply_append.mpr (Or.inr (herror hfail ho)))))
  · -- nothing is left to fail, so something has failed before
    rw [not_or, not_not] at hopen
    obtain ⟨rfl, hclosed⟩ := hopen
    have hother : ∃ m ∈ front, isDefinitionFrame m = true ∧ m.applicable = false := by
      obtain ⟨m, hm⟩ := List.exists_mem_of_ne_nil front (by rintro rfl; simp at hlen)
      refine ⟨m, hm, ?_, (hfront m hm).2⟩
      by_contra hdef
      have hman := (Message.isManipulation_of_canPass (hfront m hm).1 (by simpa using hdef)).1
      exact hclosed (hturns.isSome_transaction (Or.inl ⟨m, hm, hman⟩))
    refine ((finish_ensures P messagesTuple s).can failing).mono ?_
    rintro after o - (h | ⟨-, hnone, -⟩)
    · exact hchanged after h
    · exact hnone (hasErrorReply_append.mpr (Or.inl (hturns.hasErrorReply hother)))

/-- A row written, although a definition operation has failed. -/
theorem can_violate_of_writes (messagesTuple : FrameMessagesTuple)
    (hpass : ∀ m ∈ messagesTuple.messages, m.canPass = true)
    (hd : ∃ m ∈ messagesTuple.messages, isDefinitionFrame m = true ∧ m.applicable = false)
    (hw : ∃ m ∈ messagesTuple.messages, m.writes = true) :
    (serveFrom P messagesTuple messagesTuple.messages ⟨none, []⟩).Can
      (fun trace o => ¬ AllOrNothing P messagesTuple.messages trace o) := by
  rw [← List.append_nil messagesTuple.messages]
  refine can_serveFrom_append hpass ?_
  intro before s hturns
  rw [List.append_nil]
  obtain ⟨write, hmem, hwrite⟩ := hw
  have hman := Message.isManipulation_of_writes hwrite
  have hopen := hturns.isSome_transaction (Or.inl ⟨write, hmem, hman⟩)
  -- the commit succeeds, and what it changes includes the write
  refine ((finish_completes P messagesTuple hopen).can
    (succeeding (Table.ofNames []))).mono ?_
  rintro after o ⟨⟨transaction, hfinish⟩, hok⟩
  have hjournal : journal after = commitEffects s.transactionOperations := by
    rcases hfinish with ⟨-, -, result, hc⟩ | ⟨-, ha⟩
    · have herror : result.errorCode = none := by
        by_contra herror
        have hcallback := hok _ hc.callback_mem
        rw [if_neg herror] at hcallback
        exact ReturnCode.noConfusion hcallback
      rw [hc.journal_eq, if_pos herror]
      rfl
    · exact ha.journal_eq
  rintro (h | ⟨-, hnone, -⟩)
  · rw [journal_append, List.append_eq_nil_iff, hjournal] at h
    have hcommit : commitEffects s.transactionOperations = [] := h.2
    rw [hturns.commitEffects_eq, List.append_eq_nil_iff] at hcommit
    have hnames := (Message.isManipulation_of_canPass (hpass write hmem)
      (Message.isDefinitionFrame_of_isManipulation hman)).2
    exact Message.effect_ne_none_of_writes hwrite hnames
      (List.filterMap_eq_nil_iff.mp hcommit.2 write (List.mem_filter.mpr ⟨hmem, hman⟩))
  · exact hnone (hasErrorReply_append.mpr (Or.inl (hturns.hasErrorReply hd)))

theorem not_runsAtomically_of_exposed (messagesTuple : FrameMessagesTuple)
    (h : Exposed messagesTuple.messages) : ¬ RunsAtomically P messagesTuple := by
  refine Prog.Can.not_ensures ?_
  rw [serve_eq]
  rcases h with ⟨hlen, happ⟩ | ⟨hall, ⟨d, hd, hdef⟩, w, hw, hwrite⟩
  · exact can_violate_of_applicable messagesTuple hlen happ
  · by_cases happ : ∃ m ∈ passed messagesTuple.messages, m.applicable = true
    · refine can_violate_of_applicable messagesTuple ?_ happ
      -- the definition and the write are two operations
      have hdw : d ≠ w := by
        rintro rfl
        rw [Message.isDefinitionFrame_of_isManipulation
          (Message.isManipulation_of_writes hwrite)] at hdef
        exact Bool.false_ne_true hdef
      by_contra hlen
      cases hl : messagesTuple.messages with
      | nil => exact absurd (hl ▸ hd) List.not_mem_nil
      | cons m rest =>
        obtain rfl : rest = [] := by
          rw [hl, List.length_cons] at hlen
          exact List.length_eq_zero_iff.mp (by omega)
        rw [hl, List.mem_singleton] at hd hw
        exact hdw (hd.trans hw.symm)
    · rw [hall] at happ
      refine can_violate_of_writes messagesTuple ?_ ⟨d, hd, hdef, ?_⟩ ⟨w, hw, hwrite⟩
      · exact List.takeWhile_eq_self_iff.mp hall
      · simpa using fun h => happ ⟨d, hd, h⟩

/-- An applicable definition operation, in a list that is not exposed, is
all there is. -/
theorem eq_singleton_of_applicable {messages : List Message} (h : ¬ Exposed messages)
    {m : Message} (hm : m ∈ passed messages) (happ : m.applicable = true) :
    messages = [m] := by
  have hmem : m ∈ messages := (List.takeWhile_sublist _).subset hm
  have hlen : messages.length ≤ 1 := by
    by_contra hlen
    exact h (Or.inl ⟨Nat.lt_of_not_le hlen, m, hm, happ⟩)
  cases messages with
  | nil => exact absurd hmem List.not_mem_nil
  | cons x xs =>
    obtain rfl : xs = [] := by simpa using hlen
    rw [List.mem_singleton.mp hmem]

/-- Without `SET` and `DELETE`, the manipulation operations ask for no
change. -/
theorem manipulationEffects_eq_nil {messages : List Message}
    (h : ∀ m ∈ messages, m.writes = false) : manipulationEffects messages = [] := by
  refine List.filterMap_eq_nil_iff.mpr (fun m hm => ?_)
  obtain ⟨hmem, hman⟩ := List.mem_filter.mp hm
  exact Message.effect_eq_none_of_not_writes hman (by simpa using h m hmem)

/-- Without definition operations, the changes of the manipulation
operations are all the changes there are. -/
theorem manipulationEffects_eq_of_canPass {messages : List Message}
    (hpass : ∀ m ∈ messages, m.canPass = true)
    (hdef : ∀ m ∈ messages, isDefinitionFrame m = false) :
    manipulationEffects messages = messages.filterMap Message.effect := by
  have hman : messages.filter Message.isManipulation = messages :=
    List.filter_eq_self.mpr (fun m hm =>
      (Message.isManipulation_of_canPass (hpass m hm) (hdef m hm)).1)
  rw [manipulationEffects, hman]

/-- **A tuple runs atomically exactly where its operations are not
exposed.** -/
theorem runsAtomically_iff (messagesTuple : FrameMessagesTuple) :
    RunsAtomically P messagesTuple ↔ ¬ Exposed messagesTuple.messages := by
  constructor
  · exact fun h hexp => not_runsAtomically_of_exposed messagesTuple hexp h
  · intro h
    obtain ⟨id, identifier, messages⟩ := messagesTuple
    unfold RunsAtomically
    rw [serve_eq]
    by_cases happ : ∃ m ∈ passed messages, m.applicable = true
    · obtain ⟨m, hm, happ⟩ := happ
      obtain rfl := eq_singleton_of_applicable h hm happ
      exact serveFrom_ensures_single _ happ
    · push Not at happ
      refine (serveFrom_ensures_commit _ messages _
        (fun m hm => by simpa using happ m hm)).mono ?_
      rintro trace o (hnone | ⟨ho, hall, hjournal, herror⟩)
      · exact Or.inl hnone
      · have hpassed : passed messages = messages := List.takeWhile_eq_self_iff.mpr hall
        by_cases hdef : ∃ m ∈ messages, isDefinitionFrame m = true
        · -- the definition operations have failed, and nothing is written
          refine Or.inl (hjournal.trans (manipulationEffects_eq_nil (fun m hm => ?_)))
          by_contra hwrite
          exact h (Or.inr ⟨hpassed, hdef, m, hm, by simpa using hwrite⟩)
        · push Not at hdef
          have hdef' : ∀ m ∈ messages, isDefinitionFrame m = false :=
            fun m hm => by simpa using hdef m hm
          refine Or.inr ⟨ho, herror hdef', hjournal.trans ?_⟩
          exact manipulationEffects_eq_of_canPass hall hdef'

/-- An atomic request to drop the store `t` and then set a row in it. -/
def dropThenSet : List Message :=
  [.dropStore ⟨⟨ascii "t"⟩⟩, .set ⟨[⟨ascii "t"⟩], [], []⟩]

/-- **Half a transaction stays**: the store is dropped, and the row that
was to be set with it cannot be. -/
theorem not_runsAtomically_dropThenSet :
    FrameDecoder.decode wireFormat
        (wireFormat.frame.serialize ⟨some (ascii "x"),
          [⟨.dropStore, wireFormat.dropStore.serialize ⟨⟨ascii "t"⟩⟩, none⟩,
            ⟨.set, wireFormat.set.serialize ⟨[⟨ascii "t"⟩], [], []⟩, none⟩]⟩)
        (some (ascii "c"))
      = [⟨ascii "x", ascii "c", dropThenSet⟩]
    ∧ ¬ RunsAtomically wireFormat ⟨ascii "x", ascii "c", dropThenSet⟩ :=
  ⟨by decide, not_runsAtomically_of_exposed _ (by decide)⟩

end VoloDB
