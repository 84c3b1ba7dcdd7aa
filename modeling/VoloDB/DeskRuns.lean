import VoloDB.SharedStorage

/-!
# Executors at their desks

An executor keeps its side of `deskContract` with all its batches
(`keeps_executeBatches`), however many transactions it has open at a time:
what it prepares for a tuple is what the tuple asks for, and every reply
tells what has become of a transaction.

What `Translation` says of the operations of one tuple is used as it is: at a
desk, NDB knows of them the same as when it is not shared (`keeps_of_attains`).
-/

namespace VoloDB

open Interaction NDBMessageProcessor NDBMessageExecutor

variable {P : Protobuf} {C : Catalog} {s : Desk}

/-- The program keeps its side of the contract from the desk `s` on. -/
abbrev AtDesk {α : Type} (P : Protobuf) (C : Catalog) (post : Desk → α → Prop) (s : Desk)
    (p : Exec α) : Prop :=
  p.Keeps (deskContract P C) post s

/-! ## Preparing -/

/-- **The books of a desk**: which transactions are waiting, which tuple is
being executed, and which callback is running. -/
structure Desk.Books (waiting : List Prepared) (taken : Option FrameMessagesTuple)
    (called : Option Called) (s : Desk) : Prop where
  waiting_eq : s.waiting = waiting
  taken_eq : s.taken = taken
  called_eq : s.called = called

variable {waiting : List Prepared} {taken : Option FrameMessagesTuple} {called : Option Called}

/-- The calls that prepare a transaction leave the books as they are, and tell
NDB what they tell it. -/
theorem Desk.Books.next_of_isPreparation (h : s.Books waiting taken none) {c : Call}
    (hc : c.isPreparation = true) (r : Answer c) :
    (s.next C c r).Books waiting taken none
      ∧ (s.next C c r).knows C = (s.knows C).next c r := by
  have hbook : s.book c r = s := by
    obtain ⟨told, members, count, _, _, _⟩ := s
    obtain ⟨rfl, rfl, rfl⟩ := h
    cases c <;> first | rfl | exact absurd hc Bool.false_ne_true
  have hcontents : ((s.knows C).next c r).contents = (s.knows C).contents
      ∧ ((s.knows C).next c r).readable = [] := by
    cases c <;> first | exact ⟨rfl, rfl⟩ | exact absurd hc Bool.false_ne_true | skip
    all_goals rcases r with _ | _ <;> exact ⟨rfl, rfl⟩
  refine ⟨?_, ?_⟩
  · unfold Desk.next
    rw [hbook]
    exact ⟨h.waiting_eq, h.taken_eq, h.called_eq⟩
  · show NdbState.mk _ _ _ _ = _
    rw [← hcontents.2, show (fun _ => Keyed.Table.empty : C.Contents) = _ from hcontents.1.symm]
    rfl

/-- **What a preparation tells NDB, it tells it at a desk.** -/
theorem keeps_of_attains {α : Type} {F : Fault → Prop} {p : Exec α}
    {post : NdbState C → α → Prop} (hbooks : s.Books waiting taken none)
    (hp : p.Attains (ndbContract C) (s.knows C) post) (hprepares : Prepares p F) :
    AtDesk P C (fun s' a => s'.Books waiting taken none ∧ post (s'.knows C) a) s p := by
  refine Prog.Keeps.of_view (C := ndbContract C) (D := deskContract P C)
    (J := fun s' => s'.Books waiting taken none) (Desk.knows C) (fun s' c _ hc => ?_)
    (fun s' c r _ hc hadmits => ?_) (fun s' c r hs' hc => hs'.next_of_isPreparation hc r) hbooks
    (hp.keeps (fun _ _ => trivial)) hprepares
  · cases c <;> first | exact trivial | exact absurd hc Bool.false_ne_true
  · cases c <;> first | exact hadmits | exact absurd hc Bool.false_ne_true

/-! ## One tuple -/

/-- **The desk of an executor between two tuples**: what it holds as pending
is waiting. -/
def Desk.Idle (pending : List NdbTransactionState) (s : Desk) : Prop :=
  ∃ waiting, s.Books waiting none none ∧ waiting.map (·.state) = pending

theorem Desk.idle_empty : Desk.empty.Idle [] := ⟨[], ⟨rfl, rfl, rfl⟩, rfl⟩

/-- A reply ends what it is about: the callback that is running, or else the
tuple that is being executed. -/
theorem Desk.Books.next_send (h : s.Books waiting taken called) (h' : taken = none ∨ called = none)
    (identifier bytes : Bytes) :
    (s.next C (.send identifier bytes) ()).Books waiting none none := by
  obtain ⟨told, members, count, _, _, _⟩ := s
  obtain ⟨rfl, rfl, rfl⟩ := h
  rename_i taken waiting called
  cases called with
  | none => exact ⟨rfl, rfl, rfl⟩
  | some c =>
    obtain rfl : taken = none := h'.resolve_right (Option.some_ne_none c)
    exact ⟨rfl, rfl, rfl⟩

/-- The failure to add an operation is answered. -/
theorem keeps_reply_broken {t : FrameMessagesTuple} (h : s.Books waiting (some t) none)
    {result : Result} (hid : result.transactionIdentifier = t.transactionID)
    (herror : result.errorCode ≠ none) :
    AtDesk P C (fun s' _ => s'.Books waiting none none) s
      (replyWithResult P result t.identifier) := by
  rw [replyWithResult_eq]
  exact Prog.Keeps.perform_bind
    ⟨result, rfl, .broken h.called_eq h.taken_eq hid herror⟩
    (fun _ _ => h.next_send (Or.inr rfl) _ _)

/-- What is answered is a failure of the tuple. -/
theorem yields_failureResult_error (transactionID : Bytes) (transaction : Option Nat) :
    (failureResult transactionID transaction).Yields (fun result =>
      result.transactionIdentifier = transactionID ∧ result.errorCode ≠ none) := by
  cases transaction with
  | none => exact ⟨rfl, Option.some_ne_none _⟩
  | some t =>
    exact Prog.Yields.perform_bind (fun _ => Prog.Yields.perform_bind (fun _ =>
      ⟨rfl, Option.some_ne_none _⟩))

/-- **One turn of the loop.** The transaction is built, or the failure to do
so has been answered. -/
theorem keeps_executeMessage {message : Message} (hm : message.Tellable C)
    {t : FrameMessagesTuple} {l : LoopState} (h : s.Books waiting (some t) none)
    (hopened : Opened (s.knows C).contents l.transaction l.transactionOperations (s.knows C)) :
    AtDesk P C (fun s' next => (next = none → s'.Books waiting none none) ∧ ∀ l' ∈ next,
        s'.Books waiting (some t) none
          ∧ Opened (s'.knows C).contents l'.transaction l'.transactionOperations (s'.knows C)
          ∧ ∃ o, l'.transactionOperations = l.transactionOperations ++ [o]
            ∧ Realizes C message o) s
      (executeMessage P t l message) := by
  have hdefinition : ¬ FrameUtils.isDefinitionFrame message = true := by
    cases message <;> first | exact Bool.false_ne_true | exact hm.elim
  unfold executeMessage
  rw [if_neg hdefinition]
  refine (keeps_of_attains h (executeManipulation_attains hm hopened)
    (prepares_executeManipulation message _)).bind ?_
  rintro s' ⟨transaction, newOperation⟩ ⟨h', hcontents, hadded⟩
  cases newOperation with
  | some o =>
    obtain ⟨t', rfl, -, hadded⟩ := hadded o rfl
    obtain ⟨hbuilding, hrealizes⟩ := hadded o rfl
    refine ⟨(fun hnone => nomatch hnone), fun l' hl' => ?_⟩
    obtain rfl := Option.some.inj hl'
    exact ⟨h', ⟨rfl, hbuilding⟩, o, rfl, hrealizes⟩
  | none =>
    refine (keeps_of_attains (F := fun _ => True) h'
      ((failureResult_attains hcontents _ transaction).and_yields
        (yields_failureResult_error _ transaction))
      (prepares_of_operates (operates_failureResult _ transaction))).bind ?_
    rintro s'' result ⟨h'', -, hid, herror⟩
    refine (keeps_reply_broken h'' hid herror).bind (fun s₃ _ h₃ => ?_)
    exact ⟨fun _ => h₃, (fun _ hl' => nomatch hl')⟩

theorem keeps_executeMessages {messages : List Message}
    (hm : ∀ message ∈ messages, message.Tellable C) {t : FrameMessagesTuple} {l : LoopState}
    (h : s.Books waiting (some t) none)
    (hopened : Opened (s.knows C).contents l.transaction l.transactionOperations (s.knows C)) :
    AtDesk P C (fun s' last => (last = none → s'.Books waiting none none) ∧ ∀ l' ∈ last,
        s'.Books waiting (some t) none
          ∧ Opened (s'.knows C).contents l'.transaction l'.transactionOperations (s'.knows C)
          ∧ ∃ more, l'.transactionOperations = l.transactionOperations ++ more
            ∧ List.Forall₂ (Realizes C) messages more) s
      (executeMessages P t messages l) := by
  induction messages generalizing l s with
  | nil =>
    refine ⟨(fun hnone => nomatch hnone), fun l' hl' => ?_⟩
    obtain rfl := Option.some.inj hl'
    exact ⟨h, hopened, [], (List.append_nil _).symm, .nil⟩
  | cons message messages ih =>
    obtain ⟨hmessage, hmessages⟩ := List.forall_mem_cons.mp hm
    refine (keeps_executeMessage hmessage h hopened).bind ?_
    rintro s' next ⟨hnone, hnext⟩
    cases next with
    | none => exact ⟨fun _ => hnone rfl, (fun _ hl' => nomatch hl')⟩
    | some l' =>
      obtain ⟨h', hopened', o, ho, hrealizes⟩ := hnext l' rfl
      refine (ih hmessages h' hopened').mono ?_
      rintro s'' last ⟨hnone', hlast⟩
      refine ⟨hnone', fun l'' hl'' => ?_⟩
      obtain ⟨h'', hopened'', more, hmore, hall⟩ := hlast l'' hl''
      refine ⟨h'', hopened'', o :: more, ?_, .cons hrealizes hall⟩
      rw [hmore, ho, List.append_assoc, List.singleton_append]

/-- **A tuple** is answered with a failure, or what it asks for is prepared. -/
theorem keeps_execute {t : FrameMessagesTuple} (hne : t.messages ≠ [])
    (hm : ∀ message ∈ t.messages, message.Tellable C) (h : s.Books waiting (some t) none) :
    AtDesk P C (fun s' prepared => s'.Idle (waiting.map (·.state) ++ prepared.toList)) s
      (execute P t) := by
  have hopened : Opened (s.knows C).contents none [] (s.knows C) := ⟨rfl, rfl⟩
  refine (keeps_executeMessages hm (l := ⟨none, []⟩) h hopened).bind ?_
  rintro s' last ⟨hnone, hlast⟩
  cases last with
  | none => exact ⟨waiting, hnone rfl, (List.append_nil _).symm⟩
  | some l' =>
    obtain ⟨transaction, operations⟩ := l'
    obtain ⟨h', ⟨-, hopened'⟩, more, hmore, hall⟩ := hlast _ rfl
    rw [List.nil_append] at hmore
    subst hmore
    cases transaction with
    | none =>
      -- no transaction has been started, so there was no message
      obtain rfl : operations = [] := hopened'
      exact absurd (List.forall₂_nil_right_iff.mp hall) hne
    | some transaction =>
      have hbuilding : Building _ transaction operations (s'.knows C) := hopened'
      have hmembers : s'.members transaction = operations.map (·.operation.pointer) :=
        hbuilding.members_eq
      refine Prog.Keeps.perform_bind ⟨h'.called_eq, t, h'.taken_eq, ⟨rfl, rfl⟩, hall, ?_⟩
        (fun _ _ => ⟨waiting ++ [s'.prepare
          ⟨transaction, t.transactionID, t.identifier, operations⟩ t],
          ⟨?_, rfl, h'.called_eq⟩, ?_⟩)
      · show (s'.members transaction).map (fun p => (p, s'.told p)) = _
        rw [hmembers, List.map_map]
        exact List.map_congr_left (fun o ho => congrArg (Prod.mk _) (hbuilding.told o ho))
      · show s'.waiting ++ s'.taken.toList.map _ = _
        rw [h'.waiting_eq, h'.taken_eq]
        rfl
      · rw [List.map_append]
        rfl

/-! ## The callbacks -/

theorem Reports.append {reads : List (Nat × Snapshot)} {o : OperationState} {r : OperationResult}
    (h : Reports reads o r) (more : List (Nat × Snapshot)) : Reports (reads ++ more) o r := by
  refine ⟨h.1, fun hget hkey => ?_⟩
  obtain ⟨snapshot, shown, hmem, hrow⟩ := h.2 hget hkey
  exact ⟨snapshot, shown, List.mem_append_left _ hmem, hrow⟩

/-- The callback has read some more. -/
def Called.read (c : Called) (more : List (Nat × Snapshot)) : Called :=
  { c with reads := c.reads ++ more }

theorem Called.read_nil (c : Called) : c.read [] = c := by
  unfold read
  rw [List.append_nil]

theorem Called.read_append (c : Called) (reads more : List (Nat × Snapshot)) :
    c.read (reads ++ more) = (c.read reads).read more := by
  unfold read
  rw [List.append_assoc]

variable {c : Called}

theorem keeps_operationResult (h : s.Books waiting none (some c)) (o : OperationState) :
    AtDesk P C (fun s' r => ∃ more, s'.Books waiting none (some (c.read more))
      ∧ Reports (c.read more).reads o r) s (operationResult o) := by
  have hnone : s.Books waiting none (some (c.read [])) := by rwa [c.read_nil]
  unfold operationResult
  split
  · split
    · next hscan =>
      refine Prog.Keeps.perform_bind trivial (fun cursor _ => ?_)
      split
      · exact trivial
      · refine ⟨[], ⟨hnone.waiting_eq, hnone.taken_eq, hnone.called_eq⟩, rfl, fun _ hkey => ?_⟩
        rw [hkey] at hscan
        exact absurd hscan Bool.false_ne_true
    · refine Prog.Keeps.perform_bind trivial (fun snapshot _ => ?_)
      split
      · exact trivial
      · next shown hshown =>
        refine ⟨[(o.operation.pointer, snapshot)], ⟨h.waiting_eq, h.taken_eq, ?_⟩, rfl,
          fun _ _ => ⟨snapshot, shown, List.mem_append_right _ List.mem_cons_self, rfl, ?_⟩⟩
        · show s.called.map _ = _
          rw [h.called_eq]
          rfl
        · exact addRecordToResult_eq_some_iff.mp hshown
  · next hget => exact ⟨[], hnone, rfl, fun h => absurd h hget⟩

theorem keeps_operationResults (h : s.Books waiting none (some c))
    (operations : List OperationState) :
    AtDesk P C (fun s' results => ∃ more, s'.Books waiting none (some (c.read more))
      ∧ List.Forall₂ (Reports (c.read more).reads) operations results) s
      (operationResults operations) := by
  induction operations generalizing c s with
  | nil => exact ⟨[], by rwa [c.read_nil], .nil⟩
  | cons o operations ih =>
    refine (keeps_operationResult h o).bind ?_
    rintro s' r ⟨front, h', hreports⟩
    refine (ih h').bind ?_
    rintro s'' results ⟨rest, h'', hall⟩
    rw [← Called.read_append] at h'' hall
    refine ⟨front ++ rest, h'', .cons ?_ hall⟩
    rw [Called.read_append]
    exact hreports.append rest

/-- What has become of a transaction is answered. -/
theorem keeps_reply_called (h : s.Books waiting none (some c)) {result : Result}
    (hreply : s.MayReply c.prepared.state.identifier result) :
    AtDesk P C (fun s' _ => s'.Books waiting none none) s
      (replyWithResult P result c.prepared.state.identifier) := by
  rw [replyWithResult_eq]
  exact Prog.Keeps.perform_bind ⟨result, rfl, hreply⟩ (fun _ _ => h.next_send (Or.inl rfl) _ _)

/-- What is waiting without one of the transactions, by their states. -/
theorem map_eraseP_state (waiting : List Prepared) (state : NdbTransactionState) :
    (waiting.eraseP (fun w => w.state = state)).map (·.state)
      = (waiting.map (·.state)).erase state := by
  rw [List.erase_eq_eraseP', List.eraseP_map]
  rfl

/-- **A callback** answers what has become of its transaction. -/
theorem keeps_complete {pending : List NdbTransactionState} (h : s.Idle pending)
    {state : NdbTransactionState} (hmem : state ∈ pending) :
    AtDesk P C (fun s' _ => s'.Idle (pending.erase state)) s (complete P state) := by
  obtain ⟨waiting, hbooks, rfl⟩ := h
  obtain ⟨w, hw, rfl⟩ := List.mem_map.mp hmem
  obtain ⟨w', hfind⟩ : ∃ w', s.find w.state = some w' := by
    refine Option.isSome_iff_exists.mp (List.find?_isSome.mpr ⟨w, ?_, by simp⟩)
    rwa [hbooks.waiting_eq]
  have hstate : w'.state = w.state := by simpa using List.find?_some hfind
  rw [← hstate] at hfind ⊢
  refine Prog.Keeps.perform_bind
    ⟨hbooks.taken_eq, hbooks.called_eq, Option.isSome_iff_exists.mpr ⟨w', hfind⟩⟩
    (fun code _ => ?_)
  have hcalled : (s.next C (.callback w'.state) code).Books
      (waiting.eraseP (fun w => w.state = w'.state)) none (some ⟨w', code, []⟩) := by
    refine ⟨congrArg _ hbooks.waiting_eq, hbooks.taken_eq, ?_⟩
    show (s.find w'.state).map _ = _
    rw [hfind]
    rfl
  have hidle : ∀ s' : Desk, s'.Books (waiting.eraseP (fun w => w.state = w'.state)) none none →
      s'.Idle ((waiting.map (·.state)).erase w'.state) :=
    fun s' h' => ⟨_, h', map_eraseP_state waiting _⟩
  cases code with
  | failed =>
    refine Prog.Keeps.perform_bind trivial (fun ndbError _ =>
      Prog.Keeps.perform_bind trivial (fun _ _ => ?_))
    exact (keeps_reply_called (c := ⟨w', .failed, []⟩) ⟨hcalled.1, hcalled.2, hcalled.3⟩
      (.failed hcalled.3 rfl rfl (Option.some_ne_none _))).bind (fun s' _ h' => hidle s' h')
  | ok =>
    refine (keeps_operationResults hcalled w'.state.operations).bind ?_
    rintro s' results ⟨more, h', hreports⟩
    refine Prog.Keeps.perform_bind trivial (fun _ _ => ?_)
    have hreply : s'.MayReply w'.state.identifier
        { makeResult w'.state.transactionID with result := results } :=
      .committed h'.3 rfl rfl rfl hreports
    exact (keeps_reply_called (c := Called.read ⟨w', .ok, []⟩ more) ⟨h'.1, h'.2, h'.3⟩ hreply).bind
      (fun s'' _ h'' => hidle s'' h'')

theorem keeps_runCallbacks {pending : List NdbTransactionState} (h : s.Idle pending)
    (transactions : List Nat) :
    AtDesk P C (fun s' left => s'.Idle left) s (runCallbacks P transactions pending) := by
  induction transactions generalizing pending s with
  | nil => exact h
  | cons transaction transactions ih =>
    unfold runCallbacks
    split
    · exact ih h
    · next state hfind =>
      exact (keeps_complete h (List.mem_of_find?_eq_some hfind)).bind (fun s' _ h' => ih h')

theorem keeps_pollLoop {pending : List NdbTransactionState} (h : s.Idle pending)
    (total completed : Nat) (polls : List (List Nat)) :
    AtDesk P C (fun s' left => s'.Idle left) s (pollLoop P total completed pending polls) := by
  induction polls generalizing completed pending s with
  | nil => exact trivial
  | cons poll polls ih =>
    unfold pollLoop
    refine (keeps_runCallbacks h poll).bind (fun s' left h' => ?_)
    dsimp only
    split
    · exact ih h' _
    · exact h'

theorem keeps_waitForTransactionsToComplete {pending : List NdbTransactionState}
    (h : s.Idle pending) (total : Nat) :
    AtDesk P C (fun s' left => s'.Idle left) s
      (waitForTransactionsToComplete P total pending) := by
  unfold waitForTransactionsToComplete
  split
  · refine Prog.Keeps.perform_bind trivial (fun polls _ => keeps_pollLoop ?_ _ _ polls)
    obtain ⟨waiting, hbooks, hpending⟩ := h
    exact ⟨waiting, ⟨hbooks.1, hbooks.2, hbooks.3⟩, hpending⟩
  · exact h

/-! ## Batches -/

/-- **The tuples NDB can be told**: they have messages, and each of these can
be. -/
def Tellable (C : Catalog) (tuples : List FrameMessagesTuple) : Prop :=
  ∀ t ∈ tuples, t.messages ≠ [] ∧ ∀ message ∈ t.messages, message.Tellable C

theorem keeps_executeTuples {tuples : List FrameMessagesTuple} (hm : Tellable C tuples)
    {b : BatchState} (h : s.Idle b.pending) :
    AtDesk P C (fun s' b' => s'.Idle b'.pending) s (executeTuples P tuples b) := by
  induction tuples generalizing b s with
  | nil => exact h
  | cons t tuples ih =>
    obtain ⟨⟨hne, ht⟩, htuples⟩ := List.forall_mem_cons.mp hm
    obtain ⟨waiting, hbooks, hpending⟩ := h
    unfold executeTuples
    have htaken : (s.next C (.take t) ()).Books waiting (some t) none :=
      ⟨hbooks.waiting_eq, rfl, hbooks.called_eq⟩
    refine Prog.Keeps.perform_bind ⟨hbooks.taken_eq, hbooks.called_eq⟩ (fun _ _ => ?_)
    refine (keeps_execute hne ht htaken).bind (fun s' prepared h' => ?_)
    rw [hpending] at h'
    cases prepared with
    | none =>
      rw [Option.toList_none, List.append_nil] at h'
      exact ih htuples h'
    | some state =>
      dsimp only
      split
      · exact (keeps_waitForTransactionsToComplete h' _).bind (fun s'' left h'' =>
          ih htuples h'')
      · exact ih htuples h'

theorem keeps_executeLists {taskLists : List (List FrameMessagesTuple)}
    (hm : Tellable C taskLists.flatten) {b : BatchState} (h : s.Idle b.pending) :
    AtDesk P C (fun s' b' => s'.Idle b'.pending) s (executeLists P taskLists b) := by
  induction taskLists generalizing b s with
  | nil => exact h
  | cons taskList taskLists ih =>
    rw [List.flatten_cons, Tellable, List.forall_mem_append] at hm
    exact (keeps_executeTuples hm.1 h).bind (fun s' b' h' => ih hm.2 h')

theorem keeps_executeBatch {messages : List (List FrameMessagesTuple)}
    (hm : Tellable C messages.flatten) {pending : List NdbTransactionState} (h : s.Idle pending) :
    AtDesk P C (fun s' left => s'.Idle left) s (executeBatch P messages pending) := by
  refine (keeps_executeLists (b := ⟨0, pending⟩) hm h).bind (fun s' b h' => ?_)
  split
  · exact keeps_waitForTransactionsToComplete h' _
  · exact h'

/-- **An executor keeps its side**, with all its batches. -/
theorem keeps_executeBatches {batches : List (List (List FrameMessagesTuple))}
    (hm : Tellable C batches.flatten.flatten) {pending : List NdbTransactionState}
    (h : s.Idle pending) :
    AtDesk P C (fun s' left => s'.Idle left) s (executeBatches P batches pending) := by
  induction batches generalizing pending s with
  | nil => exact h
  | cons messages batches ih =>
    rw [List.flatten_cons, List.flatten_append, Tellable, List.forall_mem_append] at hm
    exact (keeps_executeBatch hm.1 h).bind (fun s' left h' => ih hm.2 h')

end VoloDB
