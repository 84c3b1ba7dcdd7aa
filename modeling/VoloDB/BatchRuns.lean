import VoloDB.ExecutorRuns
import VoloDB.Monitor

/-!
# Batches and their replies

An executor works through a batch tuple by tuple: it takes a tuple, answers
its definition operations, and prepares a transaction for the rest. The
answers to the transactions come from the callbacks, which NDB runs later
and in an order of its own, with nothing but the state a transaction was
prepared with.

At every moment the executor works for one tuple, the **subject**: the one
it has taken last, or the one for which the transaction was prepared whose
callback is running. `batchMonitor` keeps the subject, and allows a reply
only with the identity and the identifier of the subject. It allows a tuple
to be taken only when it is the next. That a batch conforms to it,
`conforms_executeBatch`, is all the rest of the server needs to know of its
executors.
-/

namespace VoloDB

open Interaction FrameUtils

/-- Calls that neither take a tuple nor answer one, and neither prepare a
transaction nor complete one. -/
def Call.isQuiet : Call → Bool
  | .send _ _ | .take _ | .executeAsynchPrepare _ | .callback _ => false
  | _ => true

theorem Call.isQuiet_of_isPreparation {c : Call} (h : c.isPreparation = true) :
    c.isQuiet = true := by
  cases c <;> first | rfl | exact absurd h Bool.false_ne_true

theorem Call.isQuiet_of_isDefinition {c : Call} (h : c.isDefinition = true) :
    c.isQuiet = true := by
  cases c <;> first | rfl | exact absurd h Bool.false_ne_true

namespace NDBMessageExecutor

variable (P : Protobuf)

/-- **A reply to a tuple**: it goes to the client the tuple came from, and
its result carries the identifier of the tuple. -/
def IsReplyTo (messagesTuple : FrameMessagesTuple) (reply : Bytes × Bytes) : Prop :=
  reply.1 = messagesTuple.identifier
    ∧ ∃ result : Result, result.transactionIdentifier = messagesTuple.transactionID
        ∧ reply.2 = replyBytes P result

/-- The state of a transaction that was prepared for a tuple. -/
structure StateOf (messagesTuple : FrameMessagesTuple) (state : NdbTransactionState) :
    Prop where
  identifier_eq : state.identifier = messagesTuple.identifier
  transactionID_eq : state.transactionID = messagesTuple.transactionID

/-! ## The monitor -/

/-- **What an executor has done so far.** -/
structure Progress where
  /-- The tuples it has taken. -/
  taken : List FrameMessagesTuple
  /-- The tuple it works for. -/
  subject : Option FrameMessagesTuple
  /-- The transactions it has prepared, with their tuples. -/
  prepared : List (FrameMessagesTuple × NdbTransactionState)

/-- Before the first batch. -/
def Progress.init : Progress := ⟨[], none, []⟩

/-- How a call moves the executor on. -/
def Progress.after (s : Progress) : Call → Progress
  | .take messagesTuple =>
    { s with taken := s.taken ++ [messagesTuple], subject := some messagesTuple }
  | .executeAsynchPrepare state =>
    { s with prepared := s.prepared ++ s.subject.toList.map (fun t => (t, state)) }
  | .callback state =>
    { s with subject := (s.prepared.find? (fun p => p.2 = state)).map Prod.fst }
  | _ => s

theorem Progress.mem_taken_after {s : Progress} {t : FrameMessagesTuple} (h : t ∈ s.taken)
    (c : Call) : t ∈ (s.after c).taken := by
  cases c with
  | take messagesTuple => exact List.mem_append_left _ h
  | _ => exact h

/-- The calls an executor may make, with the tuples that remain. -/
def Progress.allows (s : Progress) (remaining : List FrameMessagesTuple) : Call → Prop
  | .take messagesTuple => remaining.head? = some messagesTuple
  | .executeAsynchPrepare state => ∃ t, s.subject = some t ∧ StateOf t state
  | .callback state => ∃ t, (t, state) ∈ s.prepared
  | .send identifier bytes => ∃ t, s.subject = some t ∧ IsReplyTo P t (identifier, bytes)
  | _ => True

/-- The tuples that remain after a call. -/
def remainingAfter (remaining : List FrameMessagesTuple) : Call → List FrameMessagesTuple
  | .take _ => remaining.tail
  | _ => remaining

/-- **The monitor of a batch.** -/
def batchMonitor : Monitor Call Answer (Progress × List FrameMessagesTuple) where
  allows s c := s.1.allows P s.2 c
  next s c _ := (s.1.after c, remainingAfter s.2 c)

/-- **What an executor works for was taken**: the subject, and the tuples
its transactions were prepared for. -/
structure Progress.Sound (s : Progress) : Prop where
  subject : ∀ t, s.subject = some t → t ∈ s.taken
  prepared : ∀ p ∈ s.prepared, p.1 ∈ s.taken ∧ StateOf p.1 p.2

theorem Progress.sound_init : Progress.init.Sound :=
  ⟨fun _ h => absurd h (by simp [Progress.init]), fun _ h => absurd h List.not_mem_nil⟩

variable {P} in
/-- A call that is allowed keeps the executor sound. -/
theorem Progress.Sound.after {s : Progress} {remaining : List FrameMessagesTuple} {c : Call}
    (h : s.Sound) (hc : s.allows P remaining c) : (s.after c).Sound := by
  cases c with
  | take messagesTuple =>
    refine ⟨fun t ht => ?_, fun p hp => ?_⟩
    · rw [← Option.some.inj ht]
      exact List.mem_append_right _ List.mem_cons_self
    · exact (h.prepared p hp).imp_left (List.mem_append_left _)
  | executeAsynchPrepare state =>
    obtain ⟨t, ht, hstate⟩ := hc
    refine ⟨h.subject, fun p hp => ?_⟩
    rcases List.mem_append.mp hp with hp | hp
    · exact h.prepared p hp
    · rw [ht] at hp
      rw [List.mem_singleton.mp hp]
      exact ⟨h.subject t ht, hstate⟩
  | callback state =>
    refine ⟨fun t ht => ?_, h.prepared⟩
    obtain ⟨p, hp, rfl⟩ := Option.map_eq_some_iff.mp ht
    exact (h.prepared p (List.mem_of_find?_eq_some hp)).1
  | _ => exact h

/-- Every pending transaction was prepared. -/
def PendingOf (s : Progress) (pending : List NdbTransactionState) : Prop :=
  ∀ state ∈ pending, ∃ t, (t, state) ∈ s.prepared

theorem pendingOf_nil (s : Progress) : PendingOf s [] :=
  fun _ h => absurd h List.not_mem_nil

/-- **Where an executor is in a batch**: what it has taken, what remains,
and what NDB holds for it. -/
structure At (taken remaining : List FrameMessagesTuple) (pending : List NdbTransactionState)
    (s : Progress × List FrameMessagesTuple) : Prop where
  taken_eq : s.1.taken = taken
  remaining_eq : s.2 = remaining
  sound : s.1.Sound
  pendingOf : PendingOf s.1 pending

/-- A program conforms to the monitor of its batch. -/
abbrev Follows {α : Type} (post : Progress × List FrameMessagesTuple → α → Prop)
    (s : Progress × List FrameMessagesTuple) (p : Exec α) : Prop :=
  p.Conforms (batchMonitor P) post s

variable {P} {s : Progress × List FrameMessagesTuple}

theorem follows_of_quiet {α : Type} {p : Exec α} {F : Fault → Prop} {V : α → Prop}
    (hp : p.Within (fun c => c.isQuiet = true) F) (hV : p.Yields V) :
    Follows P (fun s' a => s' = s ∧ V a) s p := by
  refine hp.conforms hV (fun c hc => ?_) (fun c r hc => ?_)
  · cases c <;> trivial
  · cases c <;> first | rfl | exact absurd hc Bool.false_ne_true

theorem follows_of_prepares {α : Type} {p : Exec α} {F : Fault → Prop} {V : α → Prop}
    (hp : Prepares p F) (hV : p.Yields V) :
    Follows P (fun s' a => s' = s ∧ V a) s p :=
  follows_of_quiet
    (hp.mono (fun _ => Call.isQuiet_of_isPreparation) (fun _ hf => hf)) hV

/-- A result may be sent under the identity and the identifier of the
subject. -/
theorem follows_replyWithResult {t : FrameMessagesTuple} (ht : s.1.subject = some t)
    {result : Result} (hid : result.transactionIdentifier = t.transactionID) :
    Follows P (fun s' _ => s' = s) s (replyWithResult P result t.identifier) := by
  rw [replyWithResult_eq]
  exact ⟨⟨t, ht, rfl, result, hid, rfl⟩, fun _ => rfl⟩

/-! ## Definition operations -/

/-- The results of a definition operation carry the identifier it was run
under. -/
abbrev ResultFor (transactionID : Bytes) (result : Result) : Prop :=
  result.transactionIdentifier = transactionID

theorem yields_runQuery (text transactionID : Bytes) :
    (runQuery text transactionID).Yields (ResultFor transactionID) := by
  refine Prog.Yields.perform_bind (fun error => ?_)
  cases error <;> rfl

theorem quiet_executeDefinition (message : Message) (transactionID : Bytes)
    {F : Fault → Prop} :
    (executeDefinition message transactionID).Within (fun c => c.isQuiet = true) F :=
  (queries_executeDefinition message transactionID).mono (fun _ => Call.isQuiet_of_isDefinition)
    (fun _ hf => hf)

theorem yields_executeDefinition (message : Message) (transactionID : Bytes) :
    (executeDefinition message transactionID).Yields
      (fun o => ∀ result, o = some result → ResultFor transactionID result) := by
  have hmap : ∀ {p : Exec Result}, p.Yields (ResultFor transactionID) →
      (some <$> p).Yields
        (fun o => ∀ result, o = some result → ResultFor transactionID result) :=
    fun hp => hp.bind (fun _ ha => yieldsSome_some ha)
  cases message with
  | createDatabase operation => exact hmap (yields_runQuery _ _)
  | dropDatabase operation => exact hmap (yields_runQuery _ _)
  | createStore operation =>
    refine hmap ?_
    unfold executeCreateStore
    split
    · exact rfl
    · split
      · exact rfl
      · exact yields_runQuery _ _
  | dropStore operation =>
    refine hmap ((yields_runQuery _ _).bind (fun res hres => ?_))
    split
    · exact Prog.Yields.perform_bind (fun _ => hres)
    · exact hres
  | _ => exact yieldsSome_none

/-! ## One tuple -/

theorem yields_failureResult (transactionID : Bytes) (transaction : Option Nat) :
    (failureResult transactionID transaction).Yields (ResultFor transactionID) := by
  cases transaction with
  | none => exact rfl
  | some transaction =>
    exact Prog.Yields.perform_bind (fun _ => Prog.Yields.perform_bind (fun _ => rfl))

/-- **One turn of the loop** answers nothing but the tuple it works on. -/
theorem follows_executeMessage {t : FrameMessagesTuple} (ht : s.1.subject = some t)
    (state : LoopState) (message : Message) :
    Follows P (fun s' _ => s' = s) s (executeMessage P t state message) := by
  unfold executeMessage
  split
  · refine (follows_of_quiet (F := fun _ => True) (quiet_executeDefinition message _)
      (yields_executeDefinition message _)).bind ?_
    rintro _ result ⟨rfl, hresult⟩
    have hid : ResultFor t.transactionID (result.getD (makeResultForError t.transactionID
        (ascii "Failed to run definition operation.") 0)) := by
      cases result with
      | none => rfl
      | some result => exact hresult result rfl
    exact (follows_replyWithResult ht hid).bind (fun _ _ h => h)
  · refine (follows_of_prepares (prepares_executeManipulation message _)
      (Prog.yields_true _)).bind ?_
    rintro _ ⟨transaction, newOperation⟩ ⟨rfl, -⟩
    cases newOperation with
    | some newOperation => exact rfl
    | none =>
      refine (follows_of_prepares (F := fun _ => True)
        (prepares_of_operates (operates_failureResult _ transaction))
        (yields_failureResult _ transaction)).bind ?_
      rintro _ result ⟨rfl, hid⟩
      exact (follows_replyWithResult ht hid).bind (fun _ _ h => h)

theorem follows_executeMessages {t : FrameMessagesTuple} (ht : s.1.subject = some t)
    (messages : List Message) (state : LoopState) :
    Follows P (fun s' _ => s' = s) s (executeMessages P t messages state) := by
  induction messages generalizing state with
  | nil => exact rfl
  | cons message messages ih =>
    refine (follows_executeMessage ht state message).bind ?_
    rintro _ next rfl
    cases next with
    | none => exact rfl
    | some state => exact ih state

/-- What is prepared for a tuple carries its identity and its
identifier. -/
theorem follows_execute {taken remaining : List FrameMessagesTuple}
    {pending : List NdbTransactionState} (h : At taken remaining pending s)
    {t : FrameMessagesTuple} (ht : s.1.subject = some t) :
    Follows P (fun s' o => At taken remaining (pending ++ o.toList) s') s (execute P t) := by
  refine (follows_executeMessages ht t.messages ⟨none, []⟩).bind ?_
  rintro s last rfl
  split
  · next transaction transactionOperations =>
    have hallows : s.1.allows P s.2 (.executeAsynchPrepare ⟨transaction, t.transactionID,
        t.identifier, transactionOperations⟩) := ⟨t, ht, rfl, rfl⟩
    refine Prog.Conforms.perform_bind hallows (fun _ => ?_)
    refine ⟨h.taken_eq, h.remaining_eq, h.sound.after hallows, fun state hstate => ?_⟩
    rcases List.mem_append.mp hstate with hstate | hstate
    · obtain ⟨t', ht'⟩ := h.pendingOf state hstate
      exact ⟨t', List.mem_append_left _ ht'⟩
    · rw [Option.toList_some, List.mem_singleton] at hstate
      refine ⟨t, List.mem_append_right _ ?_⟩
      rw [ht, hstate]
      exact List.mem_cons_self
  · rwa [Prog.conforms_pure', Option.toList_none, List.append_nil]

/-! ## The callbacks -/

/-- **A callback answers the tuple its transaction was prepared for.** -/
theorem follows_complete {taken remaining : List FrameMessagesTuple}
    {pending : List NdbTransactionState} (h : At taken remaining pending s)
    {state : NdbTransactionState} (hstate : state ∈ pending) :
    Follows P (fun s' _ => At taken remaining pending s') s (complete P state) := by
  have hallows : s.1.allows P s.2 (.callback state) := h.pendingOf state hstate
  -- the tuple the monitor finds for the state is the subject from here on
  obtain ⟨⟨t, state'⟩, hfind⟩ : ∃ p, s.1.prepared.find? (fun p => p.2 = state) = some p := by
    obtain ⟨t, ht⟩ := hallows
    exact Option.isSome_iff_exists.mp (List.find?_isSome.mpr ⟨_, ht, by simp⟩)
  obtain rfl : state' = state := by simpa using List.find?_some hfind
  obtain ⟨-, hof⟩ := h.sound.prepared _ (List.mem_of_find?_eq_some hfind)
  refine Prog.Conforms.perform_bind hallows (fun result => ?_)
  have hsubject : (s.1.after (.callback state')).subject = some t := by
    show (s.1.prepared.find? (fun p => p.2 = state')).map Prod.fst = some t
    rw [hfind]
    rfl
  have hat : At taken remaining pending
      ((batchMonitor P).next s (.callback state') result) :=
    ⟨h.taken_eq, h.remaining_eq, h.sound.after hallows, h.pendingOf⟩
  unfold ndbExecuteCallback
  rw [hof.identifier_eq, hof.transactionID_eq]
  cases result with
  | failed =>
    refine Prog.Conforms.perform_bind trivial (fun ndbError => ?_)
    refine Prog.Conforms.perform_bind trivial (fun _ => ?_)
    refine (follows_replyWithResult hsubject rfl).bind ?_
    rintro _ _ rfl
    exact hat
  | ok =>
    refine (follows_of_prepares (F := fun _ => True)
      (prepares_of_operates (operates_operationResults _ trivial)) (Prog.yields_true _)).bind ?_
    rintro _ results ⟨rfl, -⟩
    refine Prog.Conforms.perform_bind trivial (fun _ => ?_)
    refine (follows_replyWithResult hsubject rfl).bind ?_
    rintro _ _ rfl
    exact hat

theorem At.erase {taken remaining : List FrameMessagesTuple}
    {pending : List NdbTransactionState} (h : At taken remaining pending s)
    (state : NdbTransactionState) : At taken remaining (pending.erase state) s :=
  ⟨h.taken_eq, h.remaining_eq, h.sound,
    fun state' hstate => h.pendingOf state' (List.mem_of_mem_erase hstate)⟩

theorem follows_runCallbacks {taken remaining : List FrameMessagesTuple}
    {pending : List NdbTransactionState} (h : At taken remaining pending s)
    (transactions : List Nat) :
    Follows P (fun s' left => At taken remaining left s') s
      (runCallbacks P transactions pending) := by
  induction transactions generalizing pending s with
  | nil => exact h
  | cons transaction transactions ih =>
    unfold runCallbacks
    split
    · exact ih h
    · next state hfind =>
      refine (follows_complete h (List.mem_of_find?_eq_some hfind)).bind ?_
      intro s' _ h'
      exact ih (h'.erase state)

theorem follows_pollLoop {taken remaining : List FrameMessagesTuple}
    {pending : List NdbTransactionState} (h : At taken remaining pending s)
    (total completed : Nat) (polls : List (List Nat)) :
    Follows P (fun s' left => At taken remaining left s') s
      (pollLoop P total completed pending polls) := by
  induction polls generalizing completed pending s with
  | nil =>
    unfold pollLoop
    trivial
  | cons poll polls ih =>
    unfold pollLoop
    refine (follows_runCallbacks h poll).bind ?_
    intro s' left h'
    dsimp only
    split
    · exact ih h' _
    · exact h'

theorem follows_waitForTransactionsToComplete {taken remaining : List FrameMessagesTuple}
    {pending : List NdbTransactionState} (h : At taken remaining pending s) (total : Nat) :
    Follows P (fun s' left => At taken remaining left s') s
      (waitForTransactionsToComplete P total pending) := by
  unfold waitForTransactionsToComplete
  split
  · exact Prog.Conforms.perform_bind trivial (fun polls => follows_pollLoop h _ _ polls)
  · exact h

/-! ## A batch -/

theorem follows_executeTuples {taken tuples rest : List FrameMessagesTuple} {b : BatchState}
    (h : At taken (tuples ++ rest) b.pending s) :
    Follows P (fun s' b' => At (taken ++ tuples) rest b'.pending s') s
      (executeTuples P tuples b) := by
  induction tuples generalizing taken b s with
  | nil =>
    unfold executeTuples
    rw [List.append_nil]
    exact h
  | cons t tuples ih =>
    -- the rest of the list, with `t` among the tuples that were taken
    have hnext : ∀ s' b', At (taken ++ [t]) (tuples ++ rest) b'.pending s' →
        Follows P (fun s'' b'' => At (taken ++ t :: tuples) rest b''.pending s'') s'
          (executeTuples P tuples b') := by
      intro s' b' hb'
      rw [List.append_cons]
      exact ih hb'
    have hallows : s.1.allows P s.2 (.take t) := by
      show s.2.head? = some t
      rw [h.remaining_eq]
      rfl
    have hat : At (taken ++ [t]) (tuples ++ rest) b.pending
        ((batchMonitor P).next s (.take t) ()) := by
      refine ⟨?_, ?_, h.sound.after hallows, h.pendingOf⟩
      · exact congrArg (· ++ [t]) h.taken_eq
      · exact congrArg List.tail h.remaining_eq
    unfold executeTuples
    refine Prog.Conforms.perform_bind hallows (fun _ => ?_)
    refine (follows_execute hat rfl).bind ?_
    intro s' result h'
    cases result with
    | none =>
      rw [Option.toList_none, List.append_nil] at h'
      exact hnext s' b h'
    | some state =>
      dsimp only
      split
      · refine (follows_waitForTransactionsToComplete h' _).bind ?_
        intro s'' left h''
        exact hnext s'' ⟨0, left⟩ h''
      · exact hnext s' ⟨_, _⟩ h'

theorem follows_executeLists {taken : List FrameMessagesTuple}
    {taskLists : List (List FrameMessagesTuple)} {b : BatchState}
    (h : At taken taskLists.flatten b.pending s) :
    Follows P (fun s' b' => At (taken ++ taskLists.flatten) [] b'.pending s') s
      (executeLists P taskLists b) := by
  induction taskLists generalizing taken b s with
  | nil =>
    unfold executeLists
    rw [List.flatten_nil, List.append_nil]
    exact h
  | cons taskList taskLists ih =>
    unfold executeLists
    rw [List.flatten_cons] at h ⊢
    refine (follows_executeTuples h).bind ?_
    intro s' b' h'
    rw [← List.append_assoc]
    exact ih h'

/-- **A batch takes every tuple of its messages once and in their order,
and answers each under its own identity and identifier.** -/
theorem conforms_executeBatch {taken : List FrameMessagesTuple}
    {messages : List (List FrameMessagesTuple)} {pending : List NdbTransactionState}
    (h : At taken messages.flatten pending s) :
    Follows P (fun s' left => At (taken ++ messages.flatten) [] left s') s
      (executeBatch P messages pending) := by
  refine (follows_executeLists (b := ⟨0, pending⟩) h).bind ?_
  intro s' b h'
  split
  · exact follows_waitForTransactionsToComplete h' _
  · exact h'

end NDBMessageExecutor

end VoloDB
