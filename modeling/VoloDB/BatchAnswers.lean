import Mathlib.Algebra.Order.Group.Multiset
import Mathlib.Data.Multiset.ZeroCons
import VoloDB.Answers
import VoloDB.OpenTransactions

/-!
# Every tuple of every batch is answered

`Answers` is about a tuple that is served alone. An executor does not serve
its tuples alone: it executes one after another, and the callbacks that
answer them run during later polls, a thousand transactions later perhaps and
in an order that NDB chooses. Between the two a tuple is known only by the
state that was prepared for it.

`Serves` is the balance of a part of this: of the tuples that were waiting
for their callbacks before it and the ones it takes, each has been answered
in it once or is waiting behind it. The loops over callbacks, polls, tuples,
messages and batches keep the balance whatever NDB answers (`Balances`), also
where the server is ended on the way: then some tuples have been answered, and
none twice.

That a batch comes to its end, with nothing waiting, is another matter, and in
part up to NDB. `completingContract` expects that the polls complete what has
been prepared, and then the executor is not stuck in one (`Attends`). A batch
so settles all its transactions, unless the server does not survive its
messages (`settlesAll_executeBatch`); and with both halves together every tuple
of it is answered (`executeBatches_answers`).
-/

namespace VoloDB

open Interaction NDBMessageProcessor NDBMessageExecutor

/-! ## What is expected of NDB -/

/-- The polls complete every prepared transaction. -/
def Ledger.completes (s : Ledger) : (c : Call) → Answer c → Prop
  | .pollNdb _, polls => s.prepared.map (·.transaction) ⊆ polls.flatten
  | _, _ => True

/-- **The contract with an NDB that completes its transactions.** -/
def completingContract : Contract Call Answer Ledger :=
  ledgerContract.restrict Ledger.completes

/-- NDB can keep it: it may start no transaction, and complete them all in one
poll. -/
theorem completingContract_live : completingContract.Live := by
  intro s c
  cases c with
  | startTransaction table hint => exact ⟨none, trivial, trivial⟩
  | pollNdb total =>
    refine ⟨[(s.prepared.map (·.transaction)).dedup], ⟨?_, ?_⟩, ?_⟩
    · rw [List.flatten_singleton]
      exact List.nodup_dedup _
    · rw [List.flatten_singleton]
      exact List.dedup_subset _
    · show _ ⊆ [List.dedup _].flatten
      rw [List.flatten_singleton]
      exact List.subset_dedup _
  | _ => exact ⟨failing _, trivial, trivial⟩

/-- **The contract with an NDB that shows known types** as well. -/
abbrev showingContract : Contract Call Answer Ledger :=
  completingContract.restrict (fun _ c r => ShowsKnown ⟨c, r⟩)

/-- It can do so, by showing no rows, and else records of one type. -/
theorem showingContract_live : showingContract.Live := by
  intro s c
  obtain ⟨r, hr⟩ := completingContract_live s c
  have hunread : (∀ r : Answer c, rowsRead ⟨c, r⟩ = []) → ∃ r, showingContract.admits s c r := by
    intro hnone
    refine ⟨r, hr, fun records hrecords => ?_⟩
    rw [hnone r] at hrecords
    exact absurd hrecords List.not_mem_nil
  cases c with
  | records pointer =>
    refine ⟨fun _ => ⟨[], some .bool, []⟩, ⟨trivial, trivial⟩, fun records hrecords record => ?_⟩
    rw [List.mem_singleton.mp hrecords]
    exact Option.some_ne_none _
  | nextResult pointer =>
    exact ⟨⟨[], .endOfData⟩, ⟨trivial, trivial⟩, List.forall_mem_nil _⟩
  | _ => exact hunread (fun _ => rfl)

/-- The prepared transactions are different ones. -/
theorem Held.nodup_transactions {s : Ledger} {pending : List NdbTransactionState}
    (h : Held pending none s) : (pending.map (·.transaction)).Nodup := by
  have hopened := h.nodup
  rwa [h.opened_eq, Option.toList_none, List.append_nil] at hopened

namespace NDBMessageExecutor

variable (P : Protobuf)

/-! ## The balance -/

/-- **What a part of a run does** with the tuples that wait for their
callbacks, and those it takes: those it has answered, each once, and those
that wait after it. -/
def Serves (waiting taken : Multiset FrameMessagesTuple) (trace : Trace)
    (left : Multiset FrameMessagesTuple) : Prop :=
  ∃ answered, waiting + taken = answered + left
    ∧ Multiset.Rel (IsReplyTo P) answered (replies trace)

variable {P} {waiting taken left : Multiset FrameMessagesTuple} {trace : Trace}

theorem serves_nil : Serves P waiting 0 [] waiting :=
  ⟨0, by rw [add_zero, zero_add], .zero⟩

/-- A part of a run that sends nothing, after which what it has taken
waits. -/
theorem serves_of_replies_eq_nil (h : replies trace = []) :
    Serves P waiting taken trace (waiting + taken) := by
  refine ⟨0, (zero_add _).symm, ?_⟩
  rw [h]
  exact .zero

/-- A tuple has been answered, one just taken or one that was waiting. -/
theorem serves_of_replies_eq {t : FrameMessagesTuple} {reply : Bytes × Bytes}
    (hleft : waiting + taken = t ::ₘ left) (hreplies : replies trace = [reply])
    (hreply : IsReplyTo P t reply) : Serves P waiting taken trace left := by
  refine ⟨{t}, by rwa [Multiset.singleton_add], ?_⟩
  rw [hreplies]
  exact .cons hreply .zero

/-- **One part after the other.** -/
theorem Serves.append {taken' left' : Multiset FrameMessagesTuple} {trace' : Trace}
    (h : Serves P waiting taken trace left) (h' : Serves P left taken' trace' left') :
    Serves P waiting (taken + taken') (trace ++ trace') left' := by
  obtain ⟨answered, hsum, hreplies⟩ := h
  obtain ⟨answered', hsum', hreplies'⟩ := h'
  refine ⟨answered + answered', ?_, ?_⟩
  · rw [← add_assoc, hsum, add_assoc, hsum', add_assoc]
  · rw [replies_append, ← Multiset.coe_add]
    exact hreplies.add hreplies'

/-- Where nothing was waiting before and nothing is after it, what it has taken
has been answered. -/
theorem Serves.answers (h : Serves P 0 taken trace 0) :
    Multiset.Rel (IsReplyTo P) taken (replies trace) := by
  obtain ⟨answered, hsum, hreplies⟩ := h
  rw [zero_add, add_zero] at hsum
  rwa [hsum]

variable (P) in
/-- **A program keeps the balance**: if it ends with a value, each tuple is
answered or waits, as `V` says; and however it ends, it has answered none but
these, and none of them twice. -/
def Balances {α : Type} (waiting taken : Multiset FrameMessagesTuple)
    (V : Multiset FrameMessagesTuple → α → Prop) (p : Exec α) : Prop :=
  p.Ensures (fun trace o => match o with
    | .ok a => ∃ left, V left a ∧ Serves P waiting taken trace left
    | .error _ => ∃ answered ≤ waiting + taken,
        Multiset.Rel (IsReplyTo P) answered (replies trace))

section Balances

variable {α β : Type} {V : Multiset FrameMessagesTuple → α → Prop}
  {W : Multiset FrameMessagesTuple → β → Prop}

theorem balances_pure {a : α} (h : V waiting a) :
    Balances P waiting 0 V (Prog.pure a) :=
  Prog.ensures_pure.mpr ⟨waiting, h, serves_nil⟩

theorem balances_fault {f : Fault} : Balances P waiting taken V (Prog.fault f) :=
  Prog.ensures_fault.mpr ⟨0, Multiset.zero_le _, .zero⟩

theorem Balances.mono {V' : Multiset FrameMessagesTuple → α → Prop} {p : Exec α}
    (h : Balances P waiting taken V p) (hV : ∀ left a, V left a → V' left a) :
    Balances P waiting taken V' p := by
  refine Prog.Ensures.mono h (fun trace o ho => ?_)
  cases o with
  | error f => exact ho
  | ok a =>
    obtain ⟨left, ha, hserves⟩ := ho
    exact ⟨left, hV left a ha, hserves⟩

/-- **The rule for a sequence.** -/
theorem Balances.bind {taken' : Multiset FrameMessagesTuple} {p : Exec α} {f : α → Exec β}
    (hp : Balances P waiting taken V p)
    (hf : ∀ left a, V left a → Balances P left taken' W (f a)) :
    Balances P waiting (taken + taken') W (p >>= f) := by
  refine Prog.Ensures.bind hp ?_ ?_
  · rintro trace e ⟨answered, hle, hreplies⟩
    refine ⟨answered, hle.trans ?_, hreplies⟩
    rw [← add_assoc]
    exact Multiset.le_add_right _ _
  · rintro front a ⟨left, ha, hserves⟩
    refine Prog.Ensures.mono (hf left a ha) (fun rest o ho => ?_)
    cases o with
    | error f =>
      obtain ⟨answered, hsum, hreplies⟩ := hserves
      obtain ⟨answered', hle, hreplies'⟩ := ho
      refine ⟨answered + answered', ?_, ?_⟩
      · rw [← add_assoc, hsum, add_assoc]
        exact add_le_add_right hle answered
      · rw [replies_append, ← Multiset.coe_add]
        exact hreplies.add hreplies'
    | ok b =>
      obtain ⟨left', hb, hserves'⟩ := ho
      exact ⟨left', hb, hserves.append hserves'⟩

/-- The rule for a call that is no reply. -/
theorem Balances.perform_bind {c : Call} {f : Answer c → Exec β}
    (hc : ∀ r, replyOf ⟨c, r⟩ = none) (hf : ∀ r, Balances P waiting taken W (f r)) :
    Balances P waiting taken W (perform c >>= f) := by
  refine Prog.ensures_call.mpr (fun r => Prog.Ensures.mono (hf r) (fun trace o ho => ?_))
  cases o with
  | error f =>
    rw [replies_cons_of_none (hc r)]
    exact ho
  | ok b =>
    obtain ⟨left, hb, answered, hsum, hreplies⟩ := ho
    rw [← replies_cons_of_none (hc r)] at hreplies
    exact ⟨left, hb, answered, hsum, hreplies⟩

/-- **However the program ends**, it has answered tuples that were waiting or
taken, and none of them twice. -/
theorem Balances.exists_answered {p : Exec α} (h : Balances P waiting taken V p) {trace : Trace}
    {o : Except Fault α} (hrun : p.Runs trace o) :
    ∃ answered ≤ waiting + taken, Multiset.Rel (IsReplyTo P) answered (replies trace) := by
  have ho := h trace o hrun
  cases o with
  | error f => exact ho
  | ok a =>
    obtain ⟨left, -, answered, hsum, hreplies⟩ := ho
    exact ⟨answered, hsum ▸ Multiset.le_add_right _ _, hreplies⟩

end Balances

/-! ## One tuple -/

variable (P) in
/-- **What executing a tuple comes to**: it has been answered, or it waits for
the callback of what has been prepared for it. -/
inductive Executed (t : FrameMessagesTuple) (trace : Trace) :
    Option NdbTransactionState → Prop
  | answered {reply : Bytes × Bytes} (hreplies : replies trace = [reply])
      (hreply : IsReplyTo P t reply) : Executed t trace none
  | prepared {state : NdbTransactionState} (hreplies : replies trace = [])
      (hstate : StateOf t state) : Executed t trace (some state)

/-- A tuple that is served to its end is answered. -/
theorem answered_of_runs_serve {t : FrameMessagesTuple} (h : Answerable t.messages)
    (hrun : (serve P t).Runs trace (.ok ())) :
    Answered P t.identifier t.transactionID trace (.ok ()) := by
  refine (serve_ensures_answered_iff anyStore t).mpr ⟨h, fun _ _ _ _ _ => trivial⟩ _ _ hrun
    (fun hmeets => ?_)
  rw [serve_eq] at hrun
  exact absurd ((serveFrom_ensures_meets P t _ _ _ _ hrun).mp hmeets) (by simp)

/-- What is prepared for a tuple is of the tuple. -/
theorem yields_execute (t : FrameMessagesTuple) :
    (execute P t).Yields (fun prepared => ∀ state ∈ prepared, StateOf t state) := by
  refine (Prog.yields_true (executeMessages P t t.messages ⟨none, []⟩)).bind ?_
  rintro (_ | ⟨_ | transaction, transactionOperations⟩) -
  · exact fun state hstate => nomatch hstate
  · exact fun state hstate => nomatch hstate
  · refine Prog.Yields.perform_bind (fun _ state hstate => ?_)
    obtain rfl := Option.some.inj hstate
    exact ⟨rfl, rfl⟩

/-- **A tuple that is answered once when it is served alone** is executed so:
either its answer goes out at once, or what is prepared for it leads to it. -/
theorem execute_returns {t : FrameMessagesTuple} (h : Answerable t.messages) :
    (execute P t).Returns (Executed P t) := by
  intro trace o hrun
  have hfaultless : Faultless anyStore t.messages := h.faultless (fun _ _ _ _ _ => trivial)
  obtain ⟨prepared, rfl, -⟩ := execute_returns_of_faultless hfaultless trace o hrun
  have hstate := (yields_execute t).ensures trace _ hrun prepared rfl
  refine ⟨prepared, rfl, ?_⟩
  cases prepared with
  | none =>
    obtain ⟨-, result, hreplies, hid⟩ := answered_of_runs_serve h (hrun.bind (.pure ()))
    rw [List.append_nil] at hreplies
    exact .answered hreplies ⟨rfl, result, hid, rfl⟩
  | some state =>
    refine .prepared ?_ (hstate state rfl)
    -- the callback of a commit that fails sends the one reply there is
    obtain ⟨rest, o, hcallback, hfail⟩ : (complete P state).Can (fun trace _ =>
        ∀ e ∈ trace, e.2 = failing e.1) :=
      (Prog.can_of_outcome failing rfl).mono (fun _ _ h => h.2)
    obtain ⟨rfl, -, result, hcompletes⟩ | ⟨-, ha⟩ := complete_ensures P state _ _ hcallback
    · obtain ⟨-, result', hreplies, -⟩ := answered_of_runs_serve h (hrun.bind hcallback)
      rw [replies_append, hcompletes.replies_eq, List.append_eq_singleton_iff] at hreplies
      obtain ⟨hnone, -⟩ | ⟨-, hnil⟩ := hreplies
      · exact hnone
      · exact absurd hnil (List.cons_ne_nil _ _)
    · exact ReturnCode.noConfusion (hfail _ ha.callback_mem)

/-- An answerable tuple has been answered, or waits. -/
theorem execute_balances {t : FrameMessagesTuple} (h : Answerable t.messages) :
    Balances P waiting {t} (fun left prepared => match prepared with
      | none => left = waiting
      | some state => left = waiting + {t} ∧ StateOf t state) (execute P t) := by
  refine Prog.Ensures.mono (execute_returns h) ?_
  rintro trace _ ⟨prepared, rfl, hexecuted⟩
  cases hexecuted with
  | answered hreplies hreply =>
    exact ⟨waiting, rfl, serves_of_replies_eq (add_comm _ _) hreplies hreply⟩
  | prepared hreplies hstate =>
    exact ⟨waiting + {t}, ⟨rfl, hstate⟩, serves_of_replies_eq_nil hreplies⟩

/-! ## The callbacks -/

/-- What waits, and what is pending for it. -/
abbrev WaitsFor (left : Multiset FrameMessagesTuple) (pending : List NdbTransactionState) :
    Prop :=
  left.Rel StateOf pending

variable {pending : List NdbTransactionState}

/-- **A callback** answers the tuple that waits for it. -/
theorem complete_balances (hwaiting : WaitsFor waiting pending) {state : NdbTransactionState}
    (hstate : state ∈ pending) :
    Balances P waiting 0 (fun left _ => WaitsFor left (pending.erase state))
      (complete P state) := by
  unfold WaitsFor at hwaiting
  rw [← Multiset.cons_erase (Multiset.mem_coe.mpr hstate), Multiset.rel_cons_right] at hwaiting
  obtain ⟨t, left, hof, hleft, rfl⟩ := hwaiting
  refine (complete_ensures P state).mono ?_
  rintro trace o (⟨rfl, -, result, hcompletes⟩ | ⟨rfl, ha⟩)
  · refine ⟨left, hleft, serves_of_replies_eq (add_zero _) hcompletes.replies_eq
      ⟨hof.identifier_eq, result, ?_, rfl⟩⟩
    rw [hcompletes.id_eq, hof.transactionID_eq]
  · refine ⟨0, Multiset.zero_le _, ?_⟩
    rw [ha.replies_eq]
    exact .zero

theorem runCallbacks_balances (hwaiting : WaitsFor waiting pending) (transactions : List Nat) :
    Balances P waiting 0 WaitsFor (runCallbacks P transactions pending) := by
  induction transactions generalizing pending waiting with
  | nil => exact balances_pure hwaiting
  | cons transaction transactions ih =>
    unfold runCallbacks
    split
    · exact ih hwaiting
    · next state hfind =>
      exact (complete_balances hwaiting (List.mem_of_find?_eq_some hfind)).bind
        (fun left _ hleft => ih hleft)

theorem pollLoop_balances (hwaiting : WaitsFor waiting pending) (total completed : Nat)
    (polls : List (List Nat)) :
    Balances P waiting 0 WaitsFor (pollLoop P total completed pending polls) := by
  induction polls generalizing completed pending waiting with
  | nil => exact balances_fault
  | cons poll polls ih =>
    unfold pollLoop
    rw [← add_zero (0 : Multiset FrameMessagesTuple)]
    refine (runCallbacks_balances hwaiting poll).bind (fun left pending' hleft => ?_)
    dsimp only
    split
    · exact ih hleft _
    · exact balances_pure hleft

theorem waitForTransactionsToComplete_balances (hwaiting : WaitsFor waiting pending)
    (total : Nat) :
    Balances P waiting 0 WaitsFor (waitForTransactionsToComplete P total pending) := by
  unfold waitForTransactionsToComplete
  split
  · exact .perform_bind (fun _ => rfl) (fun polls => pollLoop_balances hwaiting total 0 polls)
  · exact balances_pure hwaiting

/-! ## Tuples, messages and batches -/

/-- What waits, at a point of the loops over a batch. -/
abbrev WaitsIn (left : Multiset FrameMessagesTuple) (b : BatchState) : Prop :=
  WaitsFor left b.pending

theorem executeTuples_balances {tuples : List FrameMessagesTuple}
    (hanswerable : ∀ t ∈ tuples, Answerable t.messages) {b : BatchState}
    (h : WaitsIn waiting b) :
    Balances P waiting tuples WaitsIn (executeTuples P tuples b) := by
  induction tuples generalizing b waiting with
  | nil => exact balances_pure h
  | cons t tuples ih =>
    obtain ⟨ht, htuples⟩ := List.forall_mem_cons.mp hanswerable
    unfold executeTuples
    refine .perform_bind (fun _ => rfl) (fun _ => ?_)
    rw [← Multiset.cons_coe, ← Multiset.singleton_add]
    refine (execute_balances ht).bind (fun left prepared hleft => ?_)
    cases prepared with
    | none =>
      obtain rfl := hleft
      exact ih htuples h
    | some state =>
      obtain ⟨rfl, hstate⟩ := hleft
      have hwaits : WaitsFor (waiting + {t}) (b.pending ++ [state]) :=
        Multiset.Rel.add h (.cons hstate .zero)
      dsimp only
      split
      · rw [← zero_add (tuples : Multiset FrameMessagesTuple)]
        exact (waitForTransactionsToComplete_balances hwaits _).bind
          (fun left pending hleft => ih htuples hleft)
      · exact ih htuples hwaits

theorem executeLists_balances {taskLists : List (List FrameMessagesTuple)}
    (hanswerable : ∀ t ∈ taskLists.flatten, Answerable t.messages) {b : BatchState}
    (h : WaitsIn waiting b) :
    Balances P waiting taskLists.flatten WaitsIn (executeLists P taskLists b) := by
  induction taskLists generalizing b waiting with
  | nil => exact balances_pure h
  | cons taskList taskLists ih =>
    rw [List.flatten_cons, List.forall_mem_append] at hanswerable
    rw [List.flatten_cons, ← Multiset.coe_add]
    unfold executeLists
    exact (executeTuples_balances hanswerable.1 h).bind
      (fun left b' hleft => ih hanswerable.2 hleft)

theorem executeBatch_balances {messages : List (List FrameMessagesTuple)}
    (hanswerable : ∀ t ∈ messages.flatten, Answerable t.messages)
    (h : WaitsFor waiting pending) :
    Balances P waiting messages.flatten WaitsFor (executeBatch P messages pending) := by
  rw [← add_zero (messages.flatten : Multiset FrameMessagesTuple)]
  refine (executeLists_balances hanswerable h).bind (fun left b hleft => ?_)
  split
  · exact waitForTransactionsToComplete_balances hleft _
  · exact balances_pure hleft

/-- **All batches of an executor** keep the balance. -/
theorem executeBatches_balances {batches : List (List (List FrameMessagesTuple))}
    (hanswerable : ∀ t ∈ batches.flatten.flatten, Answerable t.messages)
    (h : WaitsFor waiting pending) :
    Balances P waiting batches.flatten.flatten WaitsFor (executeBatches P batches pending) := by
  induction batches generalizing waiting pending with
  | nil => exact balances_pure h
  | cons messages batches ih =>
    rw [List.flatten_cons, List.flatten_append, List.forall_mem_append] at hanswerable
    rw [List.flatten_cons, List.flatten_append, ← Multiset.coe_add]
    unfold executeBatches
    exact (executeBatch_balances hanswerable.1 h).bind
      (fun left pending' hleft => ih hanswerable.2 hleft)

/-- At the start nothing waits. -/
theorem balances_executeBatches {batches : List (List (List FrameMessagesTuple))}
    (hanswerable : ∀ t ∈ batches.flatten.flatten, Answerable t.messages) :
    Balances P 0 batches.flatten.flatten WaitsFor (executeBatches P batches []) :=
  executeBatches_balances hanswerable .zero

/-! ## The end of a batch -/

/-- What the callbacks of a poll leave pending was so before, and was not
completed by the poll. -/
theorem yields_runCallbacks {pending : List NdbTransactionState}
    (hnodup : (pending.map (·.transaction)).Nodup) (poll : List Nat) :
    (runCallbacks P poll pending).Yields (fun left =>
      ∀ state ∈ left, state ∈ pending ∧ state.transaction ∉ poll) := by
  induction poll generalizing pending with
  | nil => exact fun state hstate => ⟨hstate, List.not_mem_nil⟩
  | cons transaction poll ih =>
    unfold runCallbacks
    split
    · next hnone =>
      refine (ih hnodup).mono (fun left hleft state hstate => ?_)
      obtain ⟨hmem, hpoll⟩ := hleft state hstate
      have hne : ¬ state.transaction = transaction := by
        simpa using List.find?_eq_none.mp hnone state hmem
      exact ⟨hmem, fun hpoll' => (List.mem_cons.mp hpoll').elim hne hpoll⟩
    · next state hfind =>
      have hmem := List.mem_of_find?_eq_some hfind
      obtain rfl : state.transaction = transaction := by simpa using List.find?_some hfind
      have hmap := map_erase_transaction hmem hnodup
      refine (Prog.yields_true _).bind (fun _ _ => ?_)
      refine (ih (hmap ▸ hnodup.erase _)).mono (fun left hleft state' hstate' => ?_)
      obtain ⟨hmem', hpoll⟩ := hleft state' hstate'
      have hne : state'.transaction ≠ state.transaction := by
        intro heq
        refine hnodup.not_mem_erase (a := state.transaction) ?_
        rw [← hmap, ← heq]
        exact List.mem_map_of_mem hmem'
      exact ⟨List.mem_of_mem_erase hmem',
        fun hpoll' => (List.mem_cons.mp hpoll').elim hne hpoll⟩

/-- The program comes to its end under the contract, and satisfies `post`,
unless one of these stores has shown a type the protocol does not have. -/
abbrev Attends {α : Type} (typed : Bytes → Prop) (s : Ledger) (p : Exec α)
    (post : Ledger → α → Prop) : Prop :=
  p.AssuresUnless completingContract (MeetsUnknown typed) s (fun s' _ a => post s' a)

variable {typed : Bytes → Prop} {s : Ledger}

/-- The rule for a sequence. -/
theorem Attends.bind {α β : Type} {p : Exec α} {f : α → Exec β} {T : Ledger → α → Prop}
    {R : Ledger → β → Prop} (hp : Attends typed s p T)
    (hf : ∀ s' a, T s' a → Attends typed s' (f a) R) : Attends typed s (p >>= f) R :=
  Prog.AssuresUnless.bind
    (fun front rest h => h.elim (fun h => h.append rest) (fun h => h.append_left front)) hp
    (fun s' _ a ha => hf s' a ha)

/-- A program that does not fail for any other reason, and keeps its side of the
contract. -/
theorem attends_of_accounted {α : Type} {p : Exec α} {R : Trace → α → Prop}
    {post : Ledger → α → Prop} (h : p.ReturnsUnless (MeetsUnknown typed) R)
    (hp : Accounted post s p) :
    Attends typed s p (fun s' a => post s' a ∧ ∃ trace, R trace a) := by
  refine (Prog.ReturnsUnless.assures h (hp.restrict (p := Ledger.completes))).mono ?_
  exact fun s' trace a ⟨ha, hpost⟩ => ⟨hpost, trace, ha⟩

/-- **A callback** returns, unless it reads a row that cannot be shown. -/
theorem complete_returnsUnless {state : NdbTransactionState} (h : state.ReadsOnly typed) :
    (complete P state).ReturnsUnless (MeetsUnknown typed) (fun _ _ => True) := by
  refine (complete_ensures P state).mono ?_
  rintro trace o (⟨ho, -⟩ | ⟨-, ha⟩)
  · exact Or.inr ⟨(), ho, trivial⟩
  · exact Or.inl (ha.meetsUnknown typed h)

theorem runCallbacks_returnsUnless (h : ∀ state ∈ pending, state.ReadsOnly typed)
    (transactions : List Nat) :
    (runCallbacks P transactions pending).ReturnsUnless (MeetsUnknown typed)
      (fun _ _ => True) := by
  induction transactions generalizing pending with
  | nil => exact (Prog.returns_pure trivial).unless
  | cons transaction transactions ih =>
    unfold runCallbacks
    split
    · exact ih h
    · next state hfind =>
      refine Prog.ReturnsUnless.bind (fun _ rest h => h.append rest)
        (complete_returnsUnless (h state (List.mem_of_find?_eq_some hfind))) ?_
      intro front _ _
      exact (ih (fun state' h' => h state' (List.mem_of_mem_erase h'))).mono
        (fun rest h => h.append_left front) (fun _ _ ha => ha)

theorem runCallbacks_attends {poll : List Nat} (h : Held pending none s)
    (hreads : ∀ state ∈ pending, state.ReadsOnly typed) (hnodup : poll.Nodup)
    (hpoll : poll ⊆ pending.map (·.transaction)) :
    Attends typed s (runCallbacks P poll pending) (fun s' pending' =>
      (Held pending' none s' ∧ Completed poll pending pending')
        ∧ ∀ state ∈ pending', state ∈ pending ∧ state.transaction ∉ poll) := by
  have hruns := (runCallbacks_returnsUnless (P := P) hreads poll).and_ensures
    (yields_runCallbacks h.nodup_transactions poll).ensures
  refine (attends_of_accounted hruns (accounted_runCallbacks P h hnodup hpoll)).mono ?_
  rintro s' - pending' ⟨hpost, trace, -, hleft⟩
  exact ⟨hpost, hleft pending' rfl⟩

/-- **The loop over the polls** ends, with nothing pending. -/
theorem pollLoop_attends {polls : List (List Nat)} {total completed : Nat}
    (h : Held pending none s) (hreads : ∀ state ∈ pending, state.ReadsOnly typed)
    (hcount : completed + pending.length = total) (hnodup : polls.flatten.Nodup)
    (hpolls : polls.flatten ⊆ pending.map (·.transaction))
    (hall : pending.map (·.transaction) ⊆ polls.flatten) (hopen : completed < total) :
    Attends typed s (pollLoop P total completed pending polls) (fun s' left =>
      left = [] ∧ Held [] none s') := by
  induction polls generalizing completed pending s with
  | nil =>
    -- something is pending, and the polls were to complete it
    obtain ⟨state, hstate⟩ := List.exists_mem_of_length_pos (l := pending) (by omega)
    exact absurd (hall (List.mem_map_of_mem hstate)) List.not_mem_nil
  | cons poll polls ih =>
    rw [List.flatten_cons] at hnodup hpolls hall
    obtain ⟨hpollNodup, hrestNodup, hdisjoint⟩ := List.nodup_append'.mp hnodup
    obtain ⟨hpoll, hrest⟩ := List.append_subset.mp hpolls
    unfold pollLoop
    refine Attends.bind (runCallbacks_attends h hreads hpollNodup hpoll) ?_
    rintro s' pending' ⟨⟨h', hcompleted⟩, hleft⟩
    have hcount' : completed + poll.length + pending'.length = total := by
      rw [Nat.add_assoc, Nat.add_comm poll.length, hcompleted.length_eq, hcount]
    dsimp only
    split
    · next hmore =>
      refine ih h' (fun state hstate => hreads state (hleft state hstate).1) hcount' hrestNodup
        (fun t ht => ?_) (fun t ht => ?_) hmore
      · exact hcompleted.keeps t (hrest ht) (fun hmem => hdisjoint hmem ht)
      · obtain ⟨state, hstate, rfl⟩ := List.mem_map.mp ht
        obtain ⟨hmem, hnot⟩ := hleft state hstate
        exact (List.mem_append.mp (hall (List.mem_map_of_mem hmem))).resolve_left hnot
    · obtain rfl : pending' = [] := List.length_eq_zero_iff.mp (by omega)
      exact Prog.assuresUnless_pure ⟨rfl, h'⟩

/-- **The wait** ends, with nothing pending. -/
theorem waitForTransactionsToComplete_attends {total : Nat} (h : Held pending none s)
    (hreads : ∀ state ∈ pending, state.ReadsOnly typed) (htotal : total = pending.length) :
    Attends typed s (waitForTransactionsToComplete P total pending) (fun s' left =>
      left = [] ∧ Held [] none s') := by
  unfold waitForTransactionsToComplete
  split
  · next hpos =>
    refine Prog.AssuresUnless.perform_bind (fun front _ h => h.append_left front)
      (fun polls hadmits => ?_)
    have hpolls : List.flatten polls ⊆ s.prepared.map (·.transaction) := hadmits.1.2
    have hall : s.prepared.map (·.transaction) ⊆ List.flatten polls := hadmits.2
    rw [h.prepared_eq] at hpolls hall
    exact pollLoop_attends h hreads (by rw [Nat.zero_add, htotal]) hadmits.1.1 hpolls hall hpos
  · obtain rfl : pending = [] := List.length_eq_zero_iff.mp (by omega)
    exact Prog.assuresUnless_pure ⟨rfl, h⟩

/-- **The invariant of the loops over a batch**: the books are kept, and what is
pending reads these stores alone. -/
structure Attended (typed : Bytes → Prop) (b : BatchState) (s : Ledger) : Prop where
  counted : Counted b s
  reads : ∀ state ∈ b.pending, state.ReadsOnly typed

theorem attended_zero (h : Held [] none s) : Attended typed ⟨0, []⟩ s :=
  ⟨counted_zero h, fun _ hstate => absurd hstate List.not_mem_nil⟩

theorem executeTuples_attends {tuples : List FrameMessagesTuple}
    (hfaultless : ∀ t ∈ tuples, Faultless typed t.messages) {b : BatchState}
    (h : Attended typed b s) :
    Attends typed s (executeTuples P tuples b) (fun s' b' => Attended typed b' s') := by
  induction tuples generalizing b s with
  | nil => exact Prog.assuresUnless_pure h
  | cons t tuples ih =>
    obtain ⟨ht, htuples⟩ := List.forall_mem_cons.mp hfaultless
    unfold executeTuples
    refine Prog.AssuresUnless.perform_bind (fun front _ h => h.append_left front)
      (fun _ _ => ?_)
    refine Attends.bind (attends_of_accounted (execute_returns_of_faultless ht).unless
      (accounted_execute P t h.counted.held h.counted.room)) ?_
    rintro s' prepared ⟨hheld, -, hprepared⟩
    cases prepared with
    | none =>
      rw [Option.toList_none, List.append_nil] at hheld
      exact ih htuples ⟨⟨hheld, h.counted.count_eq, h.counted.room⟩, h.reads⟩
    | some state =>
      have hreads : ∀ state' ∈ b.pending ++ [state], state'.ReadsOnly typed := by
        intro state' hstate'
        rcases List.mem_append.mp hstate' with hstate' | hstate'
        · exact h.reads state' hstate'
        · exact List.mem_singleton.mp hstate' ▸ hprepared state rfl
      have hcount : b.totalTransactions + 1 = (b.pending ++ [state]).length := by
        rw [List.length_append, h.counted.count_eq, List.length_singleton]
      dsimp only
      split
      · refine Attends.bind (waitForTransactionsToComplete_attends hheld hreads hcount) ?_
        rintro s₂ left ⟨rfl, h₂⟩
        exact ih htuples (attended_zero h₂)
      · next hne =>
        refine ih htuples ⟨⟨hheld, hcount,
          lt_of_le_of_ne ?_ (fun heq => hne (hcount.trans heq))⟩, hreads⟩
        rw [← hcount, h.counted.count_eq]
        exact h.counted.room

theorem executeLists_attends {taskLists : List (List FrameMessagesTuple)}
    (hfaultless : ∀ t ∈ taskLists.flatten, Faultless typed t.messages) {b : BatchState}
    (h : Attended typed b s) :
    Attends typed s (executeLists P taskLists b) (fun s' b' => Attended typed b' s') := by
  induction taskLists generalizing b s with
  | nil => exact Prog.assuresUnless_pure h
  | cons taskList taskLists ih =>
    rw [List.flatten_cons, List.forall_mem_append] at hfaultless
    unfold executeLists
    exact Attends.bind (executeTuples_attends hfaultless.1 h) (fun s' b' h' => ih hfaultless.2 h')

/-- **A batch** the server survives comes to its end, with nothing pending. -/
theorem executeBatch_attends {messages : List (List FrameMessagesTuple)}
    (hfaultless : ∀ t ∈ messages.flatten, Faultless typed t.messages) (h : Held [] none s) :
    Attends typed s (executeBatch P messages []) (fun s' left =>
      left = [] ∧ Held [] none s') := by
  refine Attends.bind (executeLists_attends hfaultless (attended_zero h)) (fun s' b h' => ?_)
  split
  · exact waitForTransactionsToComplete_attends h'.counted.held h'.reads h'.counted.count_eq
  · next hzero =>
    have hpending : b.pending = [] :=
      List.length_eq_zero_iff.mp (by have := h'.counted.count_eq; omega)
    have hheld := h'.counted.held
    rw [hpending] at hheld
    exact Prog.assuresUnless_pure ⟨hpending, hheld⟩

theorem executeBatches_attends {batches : List (List (List FrameMessagesTuple))}
    (hfaultless : ∀ t ∈ batches.flatten.flatten, Faultless typed t.messages)
    (h : Held [] none s) :
    Attends typed s (executeBatches P batches []) (fun s' left =>
      left = [] ∧ Held [] none s') := by
  induction batches generalizing s with
  | nil => exact Prog.assuresUnless_pure ⟨rfl, h⟩
  | cons messages batches ih =>
    rw [List.flatten_cons, List.flatten_append, List.forall_mem_append] at hfaultless
    unfold executeBatches
    refine Attends.bind (executeBatch_attends hfaultless.1 h) ?_
    rintro s' left ⟨rfl, h'⟩
    exact ih hfaultless.2 h'

end NDBMessageExecutor

variable (P : Protobuf)

/-! ## All transactions of a batch -/

/-- **A batch settles all its transactions, and returns**: what `Settles` says of
its run, and that it comes to the end of it with nothing pending. -/
structure SettlesAll (trace : Trace) (o : Except Fault (List NdbTransactionState)) : Prop
    extends Settles trace o where
  returned : o = .ok []

/-- A `SET` and a `GET` of the store `t`, the `GET` by its key and with a hint,
and a `DROP_STORE` of another store. -/
def threeTuples : List FrameMessagesTuple :=
  [⟨ascii "x", ascii "a", [.set ⟨[⟨ascii "t"⟩], [], []⟩]⟩,
    ⟨ascii "y", ascii "aa", [.get ⟨[⟨ascii "t"⟩],
      [⟨ascii "k", none, none, some true, ascii "v"⟩], []⟩]⟩,
    ⟨ascii "z", ascii "a", [.dropStore ⟨⟨ascii "u"⟩⟩]⟩]

/-- NDB starts a transaction for each of the two, completes the later one first,
and finds the row that is read. -/
def crossing : (c : Call) → Answer c
  | .startTransaction _ [] => some 0
  | .startTransaction _ (_ :: _) => some 1
  | .pollNdb _ => [[1], [0]]
  | .records _ => fun _ => ⟨ascii "k", some .char, ascii "v"⟩
  | c => succeeding (Table.ofNames []) c

theorem faultless_threeTuples : ∀ t ∈ threeTuples, Faultless (· = ascii "t") t.messages :=
  List.forall_mem_cons.mpr ⟨⟨by decide, fun _ => by decide⟩,
    List.forall_mem_cons.mpr ⟨⟨by decide, fun _ => by decide⟩,
      List.forall_mem_singleton.mpr ⟨by decide, fun _ => by decide⟩⟩⟩

theorem answerable_threeTuples : ∀ t ∈ threeTuples, Answerable t.messages :=
  List.forall_mem_cons.mpr ⟨⟨List.cons_ne_nil _ _, Or.inr (by decide)⟩,
    List.forall_mem_cons.mpr ⟨⟨List.cons_ne_nil _ _, Or.inr (by decide)⟩,
      List.forall_mem_singleton.mpr ⟨List.cons_ne_nil _ _, Or.inl ⟨_, rfl, rfl⟩⟩⟩⟩

/-- The run of the three: NDB keeps its side of the contract, and the row that is
read can be shown. -/
theorem admitted_threeTuples :
    let run := (executeBatches wireFormat [[threeTuples]] []).run crossing
    completingContract.Admitted .empty run.1 ∧ ¬ MeetsUnknown (· = ascii "t") run.1 := by
  -- both pointers are new, and the two polls complete both transactions
  have hnew : (1 : Nat) ∉ [0] := by decide
  have hpolls : (([[1], [0]] : List (List Nat)).flatten.Nodup ∧ [[1], [0]].flatten ⊆ [0, 1])
      ∧ ([0, 1] : List Nat) ⊆ [[1], [0]].flatten := by decide
  have hidle : True ∧ True := ⟨trivial, trivial⟩
  refine ⟨?_, by decide⟩
  exact ⟨hidle, hidle, ⟨List.not_mem_nil, trivial⟩, hidle, hidle, hidle,
    hidle, hidle, ⟨hnew, trivial⟩, hidle, hidle, hidle, hidle, hidle, hidle, hidle, hidle,
    hidle, hidle, hpolls,
    hidle, hidle, hidle, hidle, hidle, hidle, hidle, trivial⟩

/-- All that is read has known types. -/
theorem showsKnown_crossing (c : Call) : ShowsKnown ⟨c, crossing c⟩ := by
  cases c with
  | records pointer =>
    intro records hrecords record
    rw [List.mem_singleton.mp hrecords]
    exact Option.some_ne_none _
  | _ => exact List.forall_mem_nil _

/-- **A batch that the server survives settles all its transactions**, in every
run in which NDB completes the transactions that were prepared and these stores
show no type the protocol does not have. -/
theorem settlesAll_executeBatch {typed : Bytes → Prop}
    {messages : List (List FrameMessagesTuple)}
    (hfaultless : ∀ t ∈ messages.flatten, Faultless typed t.messages) {trace : Trace}
    {o : Except Fault (List NdbTransactionState)}
    (hrun : (executeBatch P messages []).Runs trace o)
    (hndb : completingContract.Admitted .empty trace) (htypes : ¬ MeetsUnknown typed trace) :
    SettlesAll trace o := by
  have hsettles := settles_executeBatch P messages hrun (Contract.Admitted.of_restrict hndb)
  obtain hbad | ⟨left, rfl, rfl, -⟩ :=
    executeBatch_attends hfaultless held_empty trace o hrun hndb
  · exact absurd hbad htypes
  · exact ⟨hsettles, rfl⟩

/-- Two transactions are started, and both are closed. -/
theorem settlesAll_executeBatch_crossing :
    let run := (executeBatch wireFormat [threeTuples] []).run crossing
    started run.1 = [0, 1] ∧ closed run.1 = [1, 0] ∧ SettlesAll run.1 run.2 := by
  intro run
  have hrun : (executeBatch wireFormat [threeTuples] []).Runs run.1 run.2 :=
    Prog.runs_run crossing _
  refine ⟨rfl, rfl, settlesAll_executeBatch wireFormat ?_ hrun admitted_threeTuples.1
    admitted_threeTuples.2⟩
  exact faultless_threeTuples

/-- A `SET` of the store `t` and a `SET` that names no store, as one tuple. -/
def setThenNameless : List FrameMessagesTuple :=
  [⟨ascii "x", ascii "a", [.set ⟨[⟨ascii "t"⟩], [], []⟩, .set ⟨[], [], []⟩]⟩]

/-- **A transaction that stays open**: it is started for the first operation, and
the second ends the server. -/
theorem not_settlesAll_setThenNameless :
    ¬ ∀ trace o, (executeBatch wireFormat [setThenNameless] []).Runs trace o →
      completingContract.Admitted .empty trace → SettlesAll trace o := by
  intro h
  have hrun := Prog.runs_run (succeeding (Table.ofNames []))
    (executeBatch wireFormat [setThenNameless] [])
  have hidle : True ∧ True := ⟨trivial, trivial⟩
  have hsettles := h _ (.error .storeInfo) hrun
    ⟨hidle, hidle, ⟨List.not_mem_nil, trivial⟩, hidle, hidle, trivial⟩
  exact nomatch hsettles.returned

/-! ## All batches of an executor -/

/-- **An executor answers every tuple once.** In every run of all its batches
in which NDB completes the transactions that were prepared, and the stores that
are read show no type the protocol does not have, it comes to the end of them,
with nothing left pending, and its replies are one to each of the tuples, in
some order. -/
theorem executeBatches_answers {typed : Bytes → Prop}
    {batches : List (List (List FrameMessagesTuple))}
    (hanswerable : ∀ t ∈ batches.flatten.flatten, Answerable t.messages)
    (hreads : ∀ t ∈ batches.flatten.flatten, ReadsOnly typed t.messages) {trace : Trace}
    {o : Except Fault (List NdbTransactionState)}
    (hrun : (executeBatches P batches []).Runs trace o)
    (hndb : completingContract.Admitted .empty trace) (htypes : ¬ MeetsUnknown typed trace) :
    o = .ok [] ∧ Multiset.Rel (IsReplyTo P) batches.flatten.flatten (replies trace) := by
  have hfaultless : ∀ t ∈ batches.flatten.flatten, Faultless typed t.messages :=
    fun t ht => (hanswerable t ht).faultless (hreads t ht)
  obtain hbad | ⟨left, rfl, rfl, -⟩ :=
    executeBatches_attends hfaultless held_empty trace o hrun hndb
  · exact absurd hbad htypes
  · obtain ⟨left, hleft, hserves⟩ :=
      balances_executeBatches hanswerable trace _ hrun
    obtain rfl := Multiset.rel_zero_right.mp hleft
    exact ⟨rfl, hserves.answers⟩

/-- The third is answered first, and then the other two in the other order. -/
theorem executeBatches_answers_crossing :
    let run := (executeBatches wireFormat [[threeTuples]] []).run crossing
    (replies run.1).map Prod.fst = [ascii "a", ascii "aa", ascii "a"] ∧ run.2 = .ok []
      ∧ Multiset.Rel (IsReplyTo wireFormat) threeTuples (replies run.1) := by
  intro run
  have hrun : (executeBatches wireFormat [[threeTuples]] []).Runs run.1 run.2 :=
    Prog.runs_run crossing _
  refine ⟨rfl, executeBatches_answers wireFormat ?_ ?_ hrun admitted_threeTuples.1
    admitted_threeTuples.2⟩
  · exact answerable_threeTuples
  · exact fun t ht => (faultless_threeTuples t ht).readsOnly

end VoloDB
