import Mathlib.Data.Multiset.OrderedMonoid
import VoloDB.Quiescence

/-!
# The server comes to rest

Nothing is stuck for good in the server. From every state it reaches it can
come to rest without a further request, by steps of its own threads, whatever
NDB does among the things it may do, as long as what is read has columns of
known types: the definers work through what waits for them, the executors
through their buckets, and the definers then send on what the executors have
pushed (`comes_to_rest`).

The threads are taken one after another. `exists_forall_lt` is the induction
over them: it is enough that each can be brought to where it should be
without disturbing the others.
-/

namespace VoloDB

open Interaction FrameDecoder NDBMessageProcessor NDBMessageExecutor Stride

/-- **One after another**: if each of `G 0`, `G 1`, .. can be brought about
without losing the others, all the first `n` can. -/
theorem exists_forall_lt {α : Type} {R : α → α → Prop} {I : α → Prop} {G : Nat → α → Prop}
    (hstep : ∀ x i, I x →
      ∃ y, Relation.ReflTransGen R x y ∧ I y ∧ G i y ∧ ∀ j, j ≠ i → G j x → G j y)
    {x : α} (hx : I x) (n : Nat) :
    ∃ y, Relation.ReflTransGen R x y ∧ I y ∧ ∀ i < n, G i y := by
  induction n with
  | zero => exact ⟨x, .refl, hx, fun i hi => absurd hi (Nat.not_lt_zero i)⟩
  | succ n ih =>
    obtain ⟨y, hxy, hy, hG⟩ := ih
    obtain ⟨z, hyz, hz, hn, hkeep⟩ := hstep y n hy
    refine ⟨z, hxy.trans hyz, hz, fun i hi => ?_⟩
    by_cases hin : i = n
    · exact hin ▸ hn
    · exact hkeep i hin (hG i (by omega))

namespace Pipeline

variable {P : Protobuf} {T : Threads} {s s' : State} {d : Nat}

/-! ## A definer works on -/

variable (P T) in
/-- Steps of one definer. -/
abbrev DefinerRun (d : Nat) : State → State → Prop :=
  Relation.ReflTransGen (fun s s' => Step P T s (.definer d) s')

theorem DefinerRun.inv (h : DefinerRun P T d s s') (hinv : Inv P T s) : Inv P T s' := by
  induction h with
  | refl => exact hinv
  | tail _ hstep ih => exact ih.step hstep

@[simp] theorem definers_setDefiner (s : State) (d : Nat) (definer : Definer) :
    (s.setDefiner d definer).definers d = definer :=
  Function.update_self (β := fun _ => Definer) d definer s.definers

@[simp] theorem definers_handOver (s : State) (d : Nat) (definer : Definer) (e : Nat)
    (executor : Executor) (bucket : List FrameMessagesTuple) :
    (s.handOver d definer e executor bucket).definers d = definer :=
  Function.update_self (β := fun _ => Definer) d definer s.definers

/-- It drains its worker socket. -/
theorem DefinerRun.drainWorker {messages : List Bytes}
    (h : (s.definers d).phase = .receiving messages) :
    ∃ s' messages', DefinerRun P T d s s' ∧ (s'.definers d).phase = .receiving messages'
      ∧ (s'.definers d).worker = [] := by
  generalize hworker : (s.definers d).worker = worker
  induction worker generalizing s messages with
  | nil => exact ⟨s, messages, .refl, h, hworker⟩
  | cons request worker ih =>
    obtain ⟨s₁, hstep, hs₁⟩ : ∃ s₁, Step P T s (.definer d) s₁ ∧ s₁.definers d
        = { s.definers d with
          worker := worker
          phase := .receiving (messages ++ [request.1, request.2]) } :=
      ⟨_, .receiveRequest rfl h hworker, definers_setDefiner _ _ _⟩
    obtain ⟨s', messages', hrun, hphase, hnil⟩ := ih (by rw [hs₁]) (by rw [hs₁])
    exact ⟨s', messages', hrun.head hstep, hphase, hnil⟩

/-- It sends all its buckets. -/
theorem DefinerRun.assignAll {tasks : Multiset (Nat × List FrameMessagesTuple)}
    (h : (s.definers d).phase = .assigning tasks) :
    ∃ s', DefinerRun P T d s s' ∧ (s'.definers d).phase = .collecting []
      ∧ (s'.definers d).worker = (s.definers d).worker := by
  induction tasks using Multiset.induction_on generalizing s with
  | empty =>
    refine ⟨_, .single (.assigned rfl h), ?_, ?_⟩ <;> rw [definers_setDefiner]
  | cons task tasks ih =>
    obtain ⟨e, bucket⟩ := task
    obtain ⟨s₁, hstep, hs₁⟩ : ∃ s₁, Step P T s (.definer d) s₁ ∧ s₁.definers d
        = { s.definers d with phase := .assigning tasks } :=
      ⟨_, .assign rfl rfl h, definers_handOver _ _ _ _ _ _⟩
    obtain ⟨s', hrun, hphase, hworker⟩ := ih (by rw [hs₁])
    exact ⟨s', hrun.head hstep, hphase, hworker.trans (by rw [hs₁])⟩

/-- With its worker socket empty, it comes to its sink. -/
theorem DefinerRun.leaveReceiving (hinv : Inv P T s) {messages : List Bytes}
    (h : (s.definers d).phase = .receiving messages) (hworker : (s.definers d).worker = []) :
    ∃ s', DefinerRun P T d s s' ∧ (s'.definers d).phase = .collecting []
      ∧ (s'.definers d).worker = [] := by
  by_cases hmessages : messages = []
  · subst hmessages
    refine ⟨_, .single (.noRequest rfl h hworker), ?_, ?_⟩ <;> rw [definers_setDefiner]
    exact hworker
  · -- the parts are those of requests, and so can be paired and decoded
    obtain ⟨received, hreceived, -⟩ := (hinv.definer d).requests
    rw [h] at hreceived
    obtain rfl : messages = flat received := hreceived
    obtain ⟨s₁, hstep, hs₁⟩ : ∃ s₁, Step P T s (.definer d) s₁ ∧ s₁.definers d
        = { s.definers d with
          phase := .assigning (processForExecutor (received.flatMap (decodePair P))
            T.noExecutorThreads (fun _ => 0))
          batches := (s.definers d).batches ++ [⟨received, fun _ => 0⟩] } :=
      ⟨_, .decode rfl h hmessages hworker (pairs_flat received) (decodeMessages_flat P received)
        (fun _ => 0), definers_setDefiner _ _ _⟩
    obtain ⟨s', hrun, hphase, hworker'⟩ := DefinerRun.assignAll (P := P) (T := T) (s := s₁)
      (by rw [hs₁])
    exact ⟨s', hrun.head hstep, hphase, hworker'.trans (by rw [hs₁]; exact hworker)⟩

/-- It drains its sink. -/
theorem DefinerRun.drainSink {messages : List Bytes}
    (h : (s.definers d).phase = .collecting messages) :
    ∃ s' messages', DefinerRun P T d s s' ∧ (s'.definers d).phase = .collecting messages'
      ∧ (s'.definers d).sink = 0 ∧ (s'.definers d).worker = (s.definers d).worker := by
  generalize hsink : (s.definers d).sink = sink
  induction sink using Multiset.induction_on generalizing s messages with
  | empty => exact ⟨s, messages, .refl, h, hsink, rfl⟩
  | cons reply sink ih =>
    obtain ⟨s₁, hstep, hs₁⟩ : ∃ s₁, Step P T s (.definer d) s₁ ∧ s₁.definers d
        = { s.definers d with
          sink := sink
          phase := .collecting (messages ++ [reply.1, reply.2]) } :=
      ⟨_, .receiveReply rfl h hsink, definers_setDefiner _ _ _⟩
    obtain ⟨s', messages', hrun, hphase, hnil, hworker⟩ := ih (by rw [hs₁]) (by rw [hs₁])
    exact ⟨s', messages', hrun.head hstep, hphase, hnil, hworker.trans (by rw [hs₁])⟩

/-- It sends all replies on. -/
theorem DefinerRun.forwardAll {replies : List (Bytes × Bytes)}
    (h : (s.definers d).phase = .forwarding replies) :
    ∃ s', DefinerRun P T d s s' ∧ (s'.definers d).phase = .receiving []
      ∧ (s'.definers d).sink = (s.definers d).sink
      ∧ (s'.definers d).worker = (s.definers d).worker := by
  induction replies generalizing s with
  | nil =>
    refine ⟨_, .single (.forwarded rfl h), ?_, ?_, ?_⟩ <;> rw [definers_setDefiner]
  | cons reply replies ih =>
    obtain ⟨s₁, hstep, hs₁⟩ : ∃ s₁, Step P T s (.definer d) s₁ ∧ s₁.definers d
        = { s.definers d with
          phase := .forwarding replies
          sent := (s.definers d).sent ++ [reply] } :=
      ⟨_, .forward rfl h, definers_setDefiner _ _ _⟩
    obtain ⟨s', hrun, hphase, hsink, hworker⟩ := ih (by rw [hs₁])
    exact ⟨s', hrun.head hstep, hphase, hsink.trans (by rw [hs₁]), hworker.trans (by rw [hs₁])⟩

/-- With its sink drained, it comes back to its worker socket. -/
theorem DefinerRun.leaveCollecting (hinv : Inv P T s) {messages : List Bytes}
    (h : (s.definers d).phase = .collecting messages) :
    ∃ s', DefinerRun P T d s s' ∧ (s'.definers d).phase = .receiving []
      ∧ (s'.definers d).sink = 0 ∧ (s'.definers d).worker = (s.definers d).worker := by
  obtain ⟨s₁, messages', hrun₁, hphase₁, hsink₁, hworker₁⟩ :=
    DefinerRun.drainSink (P := P) (T := T) h
  obtain ⟨replies, hreplies⟩ := Option.ne_none_iff_exists'.mp
    (((DefinerRun.inv hrun₁ hinv).definer d).pairs_ne_none hphase₁)
  obtain ⟨s₂, hstep, hs₂⟩ : ∃ s₂, Step P T s₁ (.definer d) s₂ ∧ s₂.definers d
      = { s₁.definers d with phase := .forwarding replies } :=
    ⟨_, .collected rfl hphase₁ hsink₁ hreplies, definers_setDefiner _ _ _⟩
  obtain ⟨s', hrun, hphase, hsink, hworker⟩ := DefinerRun.forwardAll (P := P) (T := T) (s := s₂)
    (by rw [hs₂])
  rw [hs₂] at hsink hworker
  exact ⟨s', hrun₁.trans (hrun.head hstep), hphase, hsink.trans hsink₁, hworker.trans hworker₁⟩

/-- Wherever it is, it comes back to its worker socket. -/
theorem DefinerRun.toReceiving (hinv : Inv P T s) :
    ∃ s' messages, DefinerRun P T d s s' ∧ (s'.definers d).phase = .receiving messages := by
  cases hphase : (s.definers d).phase with
  | receiving messages => exact ⟨s, messages, .refl, hphase⟩
  | assigning tasks =>
    obtain ⟨s₁, hrun₁, hphase₁, -⟩ := DefinerRun.assignAll (P := P) (T := T) hphase
    obtain ⟨s', hrun, hphase', -⟩ := DefinerRun.leaveCollecting (DefinerRun.inv hrun₁ hinv) hphase₁
    exact ⟨s', [], hrun₁.trans hrun, hphase'⟩
  | collecting messages =>
    obtain ⟨s', hrun, hphase', -⟩ := DefinerRun.leaveCollecting hinv hphase
    exact ⟨s', [], hrun, hphase'⟩
  | forwarding replies =>
    obtain ⟨s', hrun, hphase', -⟩ := DefinerRun.forwardAll (P := P) (T := T) hphase
    exact ⟨s', [], hrun, hphase'⟩
  | failed => exact absurd hphase (hinv.definer d).not_failed

/-- **A definer comes to rest** by steps of its own. -/
theorem DefinerRun.atRest (hinv : Inv P T s) (d : Nat) :
    ∃ s', DefinerRun P T d s s' ∧ (s'.definers d).AtRest := by
  obtain ⟨s₁, messages, hrun₁, hphase₁⟩ := DefinerRun.toReceiving (d := d) hinv
  obtain ⟨s₂, messages', hrun₂, hphase₂, hworker₂⟩ :=
    DefinerRun.drainWorker (P := P) (T := T) hphase₁
  have hrun₁₂ := hrun₁.trans hrun₂
  obtain ⟨s₃, hrun₃, hphase₃, hworker₃⟩ :=
    DefinerRun.leaveReceiving (DefinerRun.inv hrun₁₂ hinv) hphase₂ hworker₂
  have hrun₁₃ := hrun₁₂.trans hrun₃
  obtain ⟨s₄, hrun₄, hphase₄, hsink₄, hworker₄⟩ :=
    DefinerRun.leaveCollecting (DefinerRun.inv hrun₁₃ hinv) hphase₃
  refine ⟨s₄, hrun₁₃.trans hrun₄, hworker₄.trans hworker₃, hsink₄, ?_, ?_, ?_, ?_⟩ <;>
    rw [hphase₄] <;> rfl

/-! ## What a definer leaves alone -/

/-- **A definer that has nothing for the executors**: no request waits for it,
and it holds none. -/
structure Definer.Settled (definer : Definer) : Prop where
  worker : definer.worker = []
  received : definer.phase.received = []
  unsent : definer.phase.unsent = 0

theorem Definer.AtRest.settled {definer : Definer} (h : definer.AtRest) : definer.Settled :=
  ⟨h.worker, h.received, h.unsent⟩

/-- A step of a definer leaves the other definers as they are. -/
theorem Step.definers_eq (h : Step P T s (.definer d) s') {d' : Nat} (hd : d' ≠ d) :
    s'.definers d' = s.definers d' := by
  cases h <;> exact Function.update_of_ne hd _ _

/-- A settled definer stays so, and leaves the executors as they are. -/
theorem Step.settled (h : Step P T s (.definer d) s') (hsettled : (s.definers d).Settled) :
    (s'.definers d).Settled ∧ s'.executors = s.executors := by
  obtain ⟨hworker, hreceived, hunsent⟩ := hsettled
  cases h with
  | receiveRequest h hphase hcons =>
    rw [h, hcons] at hworker
    exact absurd hworker (List.cons_ne_nil _ _)
  | decode h hphase hmessages =>
    rw [h, hphase] at hreceived
    exact absurd hreceived hmessages
  | assign hd he hphase =>
    rw [hd, hphase] at hunsent
    exact absurd hunsent (Multiset.cons_ne_zero)
  | noRequest h hphase | decodeFails h hphase | assigned h hphase | receiveReply h hphase
  | collected h hphase | collectFails h hphase | forward h hphase | forwarded h hphase =>
    subst h
    refine ⟨?_, rfl⟩
    rw [definers_setDefiner]
    exact ⟨hworker, rfl, rfl⟩

/-- What a definer does is followed without a call. -/
theorem DefinerRun.follow (h : DefinerRun P T d s s') (traces : Nat → Trace) :
    Follow P T (fun actor => actor ≠ .client) (s, traces) (s', traces) := by
  induction h with
  | refl => exact .refl
  | tail _ hstep ih =>
    exact ih.tail ⟨.definer d, Actor.noConfusion, .silent traces hstep (fun e he => nomatch he)⟩

theorem DefinerRun.definers_eq (h : DefinerRun P T d s s') {d' : Nat} (hd : d' ≠ d) :
    s'.definers d' = s.definers d' := by
  induction h with
  | refl => rfl
  | tail _ hstep ih => exact (hstep.definers_eq hd).trans ih

theorem DefinerRun.settled (h : DefinerRun P T d s s') (hsettled : (s.definers d).Settled) :
    (s'.definers d).Settled ∧ s'.executors = s.executors := by
  induction h with
  | refl => exact ⟨hsettled, rfl⟩
  | tail _ hstep ih =>
    obtain ⟨hsettled', heq⟩ := ih
    obtain ⟨hsettled', heq'⟩ := hstep.settled hsettled'
    exact ⟨hsettled', heq'.trans heq⟩

/-! ## An executor works on -/

/-- A step of an executor leaves the others as they are, and of the definers
everything but their sinks. -/
theorem Step.executors_eq {e : Nat} (h : Step P T s (.executor e) s') :
    (∀ e', e' ≠ e → s'.executors e' = s.executors e')
      ∧ ∀ d, (s'.definers d).worker = (s.definers d).worker
        ∧ (s'.definers d).phase = (s.definers d).phase := by
  cases h with
  | @send e executor definer identifier bytes k he hd hphase =>
    refine ⟨fun e' hne => Function.update_of_ne hne _ _, fun d => ?_⟩
    by_cases heq : d = e % T.noDefinerThread
    · subst heq hd
      have hself : (s.push (e % T.noDefinerThread) { s.definers (e % T.noDefinerThread) with
          sink := (identifier, bytes) ::ₘ (s.definers (e % T.noDefinerThread)).sink } e
          { executor with phase := .running (k ()) } (identifier, bytes)).definers
            (e % T.noDefinerThread) = _ := Function.update_self _ _ _
      rw [hself]
      exact ⟨rfl, rfl⟩
    · have hother : (s.push (e % T.noDefinerThread) { definer with
          sink := (identifier, bytes) ::ₘ definer.sink } e
          { executor with phase := .running (k ()) } (identifier, bytes)).definers d
            = s.definers d := Function.update_of_ne heq _ _
      rw [hother]
      exact ⟨rfl, rfl⟩
  | receiveTask | execute | call | finished =>
    exact ⟨fun e' hne => Function.update_of_ne hne _ _, fun d => ⟨rfl, rfl⟩⟩

section Executors

variable {e : Nat} {traces : Nat → Trace}

variable (P T) in
/-- Steps of one executor, observed. -/
abbrev ExecutorRun (e : Nat) : State × (Nat → Trace) → State × (Nat → Trace) → Prop :=
  Follow P T (fun actor => actor = .executor e)

@[simp] theorem executors_setExecutor (s : State) (e : Nat) (executor : Executor) :
    (s.setExecutor e executor).executors e = executor :=
  Function.update_self (β := fun _ => Executor) e executor s.executors

/-- A step that is no call. -/
theorem ExecutorRun.silent {x : State × (Nat → Trace)} (hstep : Step P T s (.executor e) s')
    (hsilent : ¬ (s.executors e).phase.Calling) (h : ExecutorRun P T e (s', traces) x) :
    ExecutorRun P T e (s, traces) x := by
  refine Relation.ReflTransGen.head ⟨_, rfl, .silent traces hstep (fun e' he => ?_)⟩ h
  obtain rfl := Actor.executor.inj he
  exact hsilent

theorem not_calling_receiving (messages : List (List FrameMessagesTuple))
    (pending : List NdbTransactionState) :
    ¬ (ExecutorPhase.receiving messages pending).Calling :=
  fun ⟨_, _, h⟩ => nomatch h

/-- An executor makes its next call, and gets this answer. -/
theorem exists_callStep {c : Call} {k : Answer c → Exec (List NdbTransactionState)}
    (hphase : (s.executors e).phase = .running (.call c k)) (r : Answer c) :
    ∃ s', Step P T s (.executor e) s' ∧ CallStep T s e ⟨c, r⟩ (.running (k r)) s'
      ∧ (s'.executors e).tasks = (s.executors e).tasks := by
  by_cases hsend : ∃ identifier bytes, c = .send identifier bytes
  · obtain ⟨identifier, bytes, rfl⟩ := hsend
    refine ⟨_, .send rfl rfl hphase, .send hphase, ?_⟩
    show (Function.update s.executors e _ e).tasks = _
    rw [Function.update_self]
  · have hc : ∀ identifier bytes, c ≠ .send identifier bytes :=
      fun identifier bytes heq => hsend ⟨identifier, bytes, heq⟩
    refine ⟨_, .call rfl hphase hc r, .call hphase hc r, ?_⟩
    rw [executors_setExecutor]

/-- **It runs a program to its end**, with these answers. -/
theorem ExecutorRun.runProgram (traces : Nat → Trace)
    {program : Exec (List NdbTransactionState)} {rest : Trace}
    {left : List NdbTransactionState} (hrun : program.Runs rest (.ok left))
    (hphase : (s.executors e).phase = .running program) :
    ∃ s', ExecutorRun P T e (s, traces) (s', Function.update traces e (traces e ++ rest))
      ∧ (s'.executors e).phase = .receiving [] left
      ∧ (s'.executors e).tasks = (s.executors e).tasks := by
  induction program generalizing s traces rest with
  | pure pending =>
    obtain ⟨rfl, hleft⟩ := Prog.runs_pure_iff.mp hrun
    obtain rfl := Except.ok.inj hleft
    rw [List.append_nil, Function.update_eq_self]
    refine ⟨_, ExecutorRun.silent (.finished rfl hphase) ?_ .refl, ?_, ?_⟩
    · rw [hphase]
      exact fun ⟨_, _, h⟩ => nomatch h
    · rw [executors_setExecutor]
    · rw [executors_setExecutor]
  | fault f => exact absurd (Prog.runs_fault_iff.mp hrun).2 (by simp)
  | call c k ih =>
    obtain ⟨r, rest, rfl, hrest⟩ := Prog.runs_call_iff.mp hrun
    obtain ⟨s₁, hstep, hcall, htasks₁⟩ := exists_callStep (P := P) (T := T) hphase r
    obtain ⟨s', hrun', hphase', htasks⟩ :=
      ih r (Function.update traces e (traces e ++ [⟨c, r⟩])) hrest hcall.phase_eq
    rw [Function.update_self, Function.update_idem, List.append_assoc] at hrun'
    exact ⟨s', Relation.ReflTransGen.head ⟨_, rfl, .call traces hstep hcall.calls⟩ hrun',
      hphase', htasks.trans htasks₁⟩

/-- It receives buckets, up to its limit. -/
theorem ExecutorRun.fill (traces : Nat → Trace) {messages : List (List FrameMessagesTuple)}
    {pending : List NdbTransactionState}
    (hphase : (s.executors e).phase = .receiving messages pending)
    (hlimit : messages.length ≤ 1024) :
    ∃ s' messages', ExecutorRun P T e (s, traces) (s', traces)
      ∧ (s'.executors e).phase = .receiving messages' pending
      ∧ ((s'.executors e).tasks = 0 ∨ messages'.length = 1024)
      ∧ (s'.executors e).tasks.card + messages'.length
        = (s.executors e).tasks.card + messages.length := by
  generalize htasks : (s.executors e).tasks = tasks
  induction tasks using Multiset.induction_on generalizing s messages with
  | empty => exact ⟨s, messages, .refl, hphase, Or.inl htasks, by rw [htasks]⟩
  | cons bucket tasks ih =>
    by_cases hfull : messages.length = 1024
    · exact ⟨s, messages, .refl, hphase, Or.inr hfull, by rw [htasks]⟩
    · have hroom : messages.length < 1024 := lt_of_le_of_ne hlimit hfull
      obtain ⟨s₁, hstep, hs₁⟩ : ∃ s₁, Step P T s (.executor e) s₁ ∧ s₁.executors e
          = { s.executors e with
            tasks := tasks
            phase := .receiving (messages ++ [bucket]) pending
            received := (s.executors e).received ++ [bucket] } :=
        ⟨_, .receiveTask rfl hphase hroom htasks, executors_setExecutor _ _ _⟩
      obtain ⟨s', messages', hrun, hphase', hready, hcard⟩ := ih (by rw [hs₁])
        (by rw [List.length_append]; exact hroom) (by rw [hs₁])
      refine ⟨s', messages', ExecutorRun.silent hstep ?_ hrun, hphase', hready, hcard.trans ?_⟩
      · rw [hphase]
        exact not_calling_receiving _ _
      · rw [Multiset.card_cons, List.length_append, List.length_singleton]
        omega

end Executors

/-! ## The invariant of coming to rest -/

theorem Follow.requests_eq {actors : Actor → Prop} {x y : State × (Nat → Trace)}
    (hactors : ∀ actor, actors actor → actor.IsThread) (h : Follow P T actors x y) (d : Nat) :
    (y.1.definers d).requests = (x.1.definers d).requests := by
  induction h with
  | refl => rfl
  | tail _ hstep ih =>
    obtain ⟨actor, hactor, hobserved⟩ := hstep
    refine (hobserved.step.requests_eq d).elim (fun hclient => ?_) (fun heq => heq.trans ih)
    exact absurd hclient.1 (hactors actor hactor)

variable (P T) in
/-- **A state the server has come to** while NDB has done what it may, and the
clients have asked for what can be answered. -/
structure Regular (p : Ledger → (c : Call) → Answer c → Prop) (x : State × (Nat → Trace)) :
    Prop where
  observes : Observes P T x.1 x.2
  admitted : ∀ e, (completingContract.restrict p).Admitted .empty (x.2 e)
  answerable : ∀ client t, x.1.Asked P client t → Answerable t.messages

section Regular

variable {p : Ledger → (c : Call) → Answer c → Prop} {x y : State × (Nat → Trace)} {e : Nat}

/-- The threads of the server go on from such a state to such states. -/
theorem Regular.follow (h : Regular P T p x) {actors : Actor → Prop}
    (hactors : ∀ actor, actors actor → actor.IsThread) (hxy : Follow P T actors x y)
    (hadmitted : ∀ e, (completingContract.restrict p).Admitted .empty (y.2 e)) :
    Regular P T p y := by
  refine ⟨h.observes.trans (hxy.mono (fun _ _ => trivial)), hadmitted, ?_⟩
  rintro client t ⟨d, frame, hrequest, ht⟩
  rw [hxy.requests_eq hactors d] at hrequest
  exact h.answerable client t ⟨d, frame, hrequest, ht⟩

theorem isThread_of_eq_executor {actor : Actor} (h : actor = .executor e) : actor.IsThread :=
  fun hclient => nomatch h.symm.trans hclient

/-- **An executor comes to the end of its batch.** Its program has a run that
NDB allows, and every such run comes to an end. -/
theorem Regular.finish (hlive : (completingContract.restrict p).Live)
    (hknown : ∀ s c r, p s c r → ShowsKnown ⟨c, r⟩) (h : Regular P T p x)
    {program : Exec (List NdbTransactionState)}
    (hphase : (x.1.executors e).phase = .running program) :
    ∃ y, ExecutorRun P T e x y ∧ Regular P T p y
      ∧ (y.1.executors e).phase = .receiving [] []
      ∧ (y.1.executors e).tasks = (x.1.executors e).tasks := by
  obtain ⟨s, traces⟩ := x
  obtain ⟨rest, o, hrest, hadmitted⟩ := Prog.exists_admitted_run hlive
    ((completingContract.restrict p).after .empty (traces e)) program
  have hwhole : (completingContract.restrict p).Admitted .empty (traces e ++ rest) :=
    Contract.admitted_append.mpr ⟨h.admitted e, hadmitted⟩
  have hreplays : Replays P (s.executors e).phase (s.executors e).received (traces e) :=
    (h.observes.observant e).replays
  have hanswerable : ∀ t ∈ (s.executors e).received.flatten, Answerable t.messages := by
    intro t ht
    have hinv := h.observes.reachable.inv
    obtain ⟨d, bucket, hbucket, htb⟩ := hinv.handedBy_of_received ht
    exact h.answerable _ t (hinv.asked_of_mem_bucket hbucket htb)
  obtain rfl : o = .ok [] := by
    rw [hphase] at hreplays
    generalize traces e = trace at hreplays hwhole
    generalize (s.executors e).received = received at hreplays hanswerable
    cases hreplays with
    | @running batches messages pending front back _ hfront hmessages hback =>
      have hrun : (executeBatches P (batches ++ [messages]) []).Runs (front ++ back ++ rest) o := by
        rw [executeBatches_concat, List.append_assoc]
        exact hfront.bind (hback.runs hrest)
      have hreceived : (batches ++ [messages]).flatten.flatten
          = (batches.flatten ++ messages).flatten := by
        rw [List.flatten_append, List.flatten_singleton]
      have hfaultless : ∀ t ∈ (batches ++ [messages]).flatten.flatten,
          Faultless anyStore t.messages := fun t ht =>
        (hanswerable t (hreceived ▸ ht)).faultless (fun _ _ _ _ _ => trivial)
      obtain hbad | ⟨left, ho, rfl, -⟩ :=
        executeBatches_attends hfaultless held_empty _ o hrun hwhole.of_restrict
      · exact absurd hbad (not_meetsUnknown_of_showsKnown (hwhole.forall_of_restrict hknown))
      · exact ho
  obtain ⟨s', hrun, hphase', htasks⟩ := ExecutorRun.runProgram (P := P) (T := T) traces hrest hphase
  refine ⟨(s', _), hrun, h.follow (fun _ => isThread_of_eq_executor) hrun ?_, hphase', htasks⟩
  exact (Function.forall_update_iff traces
    (fun _ trace => (completingContract.restrict p).Admitted .empty trace)).mpr
    ⟨hwhole, fun e' _ => h.admitted e'⟩

/-- From its task socket, an executor comes to rest: it takes what waits there
in batches of as many buckets as it may. -/
theorem Regular.executor_atRest_of_receiving (hlive : (completingContract.restrict p).Live)
    (hknown : ∀ s c r, p s c r → ShowsKnown ⟨c, r⟩) {n : Nat} (h : Regular P T p x)
    {messages : List (List FrameMessagesTuple)}
    {pending : List NdbTransactionState}
    (hphase : (x.1.executors e).phase = .receiving messages pending)
    (hn : (x.1.executors e).tasks.card + messages.length = n) :
    ∃ y, ExecutorRun P T e x y ∧ Regular P T p y ∧ (y.1.executors e).AtRest := by
  induction n using Nat.strong_induction_on generalizing x messages pending with
  | _ n ih =>
    obtain ⟨s, traces⟩ := x
    have hlimit : messages.length ≤ 1024 := by
      have hreplays : Replays P (s.executors e).phase (s.executors e).received (traces e) :=
        (h.observes.observant e).replays
      rw [show (s.executors e).phase = _ from hphase] at hreplays
      generalize (s.executors e).received = received at hreplays
      cases hreplays with
      | receiving hlimit => exact hlimit
    obtain ⟨s₁, messages', hrun₁, hphase₁, hready, hcard⟩ :=
      ExecutorRun.fill (P := P) (T := T) traces hphase hlimit
    have h₁ := h.follow (fun _ => isThread_of_eq_executor) hrun₁ h.admitted
    by_cases hmessages : messages' = []
    · subst hmessages
      exact ⟨_, hrun₁, h₁, hready.resolve_right (by simp), _, hphase₁⟩
    · -- a batch of what it has received
      obtain ⟨s₂, hstep, hs₂⟩ : ∃ s₂, Step P T s₁ (.executor e) s₂ ∧ s₂.executors e
          = { s₁.executors e with phase := .running (executeBatch P messages' pending) } :=
        ⟨_, .execute rfl hphase₁ hmessages hready, executors_setExecutor _ _ _⟩
      have hrun₂ : ExecutorRun P T e (s₁, traces) (s₂, traces) :=
        ExecutorRun.silent hstep (hphase₁ ▸ not_calling_receiving _ _) .refl
      have h₂ := h₁.follow (fun _ => isThread_of_eq_executor) hrun₂ h₁.admitted
      obtain ⟨y, hrun₃, h₃, hphase₃, htasks⟩ := h₂.finish hlive hknown (by rw [hs₂])
      have hfewer : (y.1.executors e).tasks.card < n := by
        have hpos := List.length_pos_iff.mpr hmessages
        have hsum : (s.executors e).tasks.card + messages.length = n := hn
        rw [htasks, show (s₂.executors e).tasks = (s₁.executors e).tasks by rw [hs₂]]
        omega
      obtain ⟨z, hrun₄, hz⟩ := ih _ hfewer h₃ hphase₃ rfl
      exact ⟨z, (hrun₁.trans hrun₂).trans (hrun₃.trans hrun₄), hz⟩

/-- **An executor comes to rest** by steps of its own. -/
theorem Regular.executor_atRest (hlive : (completingContract.restrict p).Live)
    (hknown : ∀ s c r, p s c r → ShowsKnown ⟨c, r⟩) (h : Regular P T p x) (e : Nat) :
    ∃ y, ExecutorRun P T e x y ∧ Regular P T p y ∧ (y.1.executors e).AtRest := by
  cases hphase : (x.1.executors e).phase with
  | receiving messages pending => exact h.executor_atRest_of_receiving hlive hknown hphase rfl
  | running program =>
    obtain ⟨y, hrun, h', hphase', -⟩ := h.finish hlive hknown hphase
    obtain ⟨z, hrun', hz⟩ := h'.executor_atRest_of_receiving hlive hknown hphase' rfl
    exact ⟨z, hrun.trans hrun', hz⟩

end Regular

/-! ## The threads there are not -/

/-- A definer there is not is at rest. -/
theorem Reachable.definer_atRest (h : Reachable P T s) (hd : T.noDefinerThread ≤ d) :
    (s.definers d).AtRest := by
  obtain ⟨⟨received, hreceived, hrequests⟩, hbuckets, ⟨collected, hcollected, hreplies⟩, -⟩ :=
    h.inv.definer d
  -- it has had no request, and so has no bucket
  rw [h.requests_eq_nil hd] at hrequests
  obtain ⟨hfront, hworker⟩ := List.append_eq_nil_iff.mp hrequests.symm
  obtain ⟨hbatches, rfl⟩ := List.append_eq_nil_iff.mp hfront
  have hnone : (s.definers d).batches.flatMap (Batch.buckets P T) = [] :=
    List.flatMap_eq_nil_iff.mpr (fun batch hbatch =>
      Batch.buckets_eq_nil (List.flatMap_eq_nil_iff.mp hbatches batch hbatch))
  rw [hnone] at hbuckets
  -- and no executor pushes to it
  have hpushed : s.pushedTo T d = [] := by
    refine List.filterMap_eq_nil_iff.mpr (fun x _ => if_neg (fun heq => ?_))
    exact Nat.not_lt.mpr hd (heq ▸ Nat.mod_lt x.1 T.definer_pos)
  rw [hpushed] at hreplies
  have hzero := add_eq_zero.mp hreplies.symm
  have hzero' := add_eq_zero.mp hzero.1
  have hzero'' := add_eq_zero.mp hzero'.1
  obtain rfl : collected = [] := (Multiset.coe_eq_zero _).mp hzero''.2
  refine ⟨hworker, hzero''.1, hreceived, (add_eq_zero.mp hbuckets.symm).1, hcollected, ?_⟩
  exact (Multiset.coe_eq_zero _).mp hzero'.2

/-- An executor there is not is at rest. -/
theorem Observes.executor_atRest {traces : Nat → Trace} (h : Observes P T s traces) {e : Nat}
    (he : T.noExecutorThreads ≤ e) : (s.executors e).AtRest := by
  have hhanded : s.handedTo e = [] := by
    refine List.filterMap_eq_nil_iff.mpr (fun x hx => if_neg (fun heq => ?_))
    exact Nat.not_lt.mpr he (heq ▸ (h.reachable.handed_lt hx).2)
  have hbuckets := (h.reachable.inv.executor e).handed
  rw [hhanded] at hbuckets
  have hzero := add_eq_zero.mp hbuckets.symm
  refine ⟨hzero.2, ?_⟩
  have hreplays : Replays P (s.executors e).phase (s.executors e).received (traces e) :=
    (h.observant e).replays
  rw [(Multiset.coe_eq_zero _).mp hzero.1] at hreplays
  generalize hnil : ([] : List (List FrameMessagesTuple)) = received at hreplays
  generalize (s.executors e).phase = phase at hreplays
  generalize traces e = trace at hreplays
  cases hreplays with
  | receiving hlimit hrun =>
    rw [(List.append_eq_nil_iff.mp hnil.symm).2]
    exact ⟨_, rfl⟩
  | running hfront hmessages hback =>
    exact absurd (List.append_eq_nil_iff.mp hnil.symm).2 hmessages

/-! ## Everything at rest -/

theorem ExecutorRun.executors_eq {e : Nat} {x y : State × (Nat → Trace)}
    (h : ExecutorRun P T e x y) :
    (∀ e', e' ≠ e → y.1.executors e' = x.1.executors e')
      ∧ ∀ d, (y.1.definers d).worker = (x.1.definers d).worker
        ∧ (y.1.definers d).phase = (x.1.definers d).phase := by
  induction h with
  | refl => exact ⟨fun _ _ => rfl, fun _ => ⟨rfl, rfl⟩⟩
  | tail _ hstep ih =>
    obtain ⟨actor, rfl, hobserved⟩ := hstep
    obtain ⟨hothers, hdefiners⟩ := hobserved.step.executors_eq
    refine ⟨fun e' hne => (hothers e' hne).trans (ih.1 e' hne), fun d => ?_⟩
    exact ⟨(hdefiners d).1.trans (ih.2 d).1, (hdefiners d).2.trans (ih.2 d).2⟩

variable {p : Ledger → (c : Call) → Answer c → Prop} {x : State × (Nat → Trace)}

/-- A definer of such a state comes to rest. -/
theorem Regular.definer_atRest (h : Regular P T p x) (d : Nat) :
    ∃ y, Follow P T Actor.IsThread x y ∧ Regular P T p y ∧ DefinerRun P T d x.1 y.1
      ∧ (y.1.definers d).AtRest := by
  obtain ⟨s', hrun, hrest⟩ := DefinerRun.atRest h.observes.reachable.inv d
  have hfollow : Follow P T Actor.IsThread x (s', x.2) := DefinerRun.follow hrun x.2
  exact ⟨(s', x.2), hfollow, h.follow (fun _ h => h) hfollow h.admitted, hrun, hrest⟩

/-- The definers hand everything over. -/
theorem Regular.settles (h : Regular P T p x) :
    ∃ y, Follow P T Actor.IsThread x y ∧ Regular P T p y
      ∧ ∀ d, (y.1.definers d).Settled := by
  obtain ⟨y, hxy, hy, hsettled⟩ := exists_forall_lt (I := Regular P T p)
    (G := fun d y => (y.1.definers d).Settled) (fun x d hx => by
      obtain ⟨y, hxy, hy, hrun, hrest⟩ := hx.definer_atRest d
      exact ⟨y, hxy, hy, hrest.settled, fun d' hne hd' => DefinerRun.definers_eq hrun hne ▸ hd'⟩)
    h T.noDefinerThread
  refine ⟨y, hxy, hy, fun d => ?_⟩
  by_cases hd : d < T.noDefinerThread
  · exact hsettled d hd
  · exact (hy.observes.reachable.definer_atRest (Nat.not_lt.mp hd)).settled

/-- The executors then execute everything. -/
theorem Regular.executes (hlive : (completingContract.restrict p).Live)
    (hknown : ∀ s c r, p s c r → ShowsKnown ⟨c, r⟩) (h : Regular P T p x)
    (hsettled : ∀ d, (x.1.definers d).Settled) :
    ∃ y, Follow P T Actor.IsThread x y ∧ Regular P T p y
      ∧ (∀ d, (y.1.definers d).Settled) ∧ ∀ e, (y.1.executors e).AtRest := by
  obtain ⟨y, hxy, ⟨hy, hsettled'⟩, hrest⟩ := exists_forall_lt
    (I := fun x => Regular P T p x ∧ ∀ d, (x.1.definers d).Settled)
    (G := fun e y => (y.1.executors e).AtRest) (fun x e hx => by
      obtain ⟨y, hrun, hy, hrest⟩ := hx.1.executor_atRest hlive hknown e
      obtain ⟨hothers, hdefiners⟩ := ExecutorRun.executors_eq hrun
      refine ⟨y, Follow.mono (fun _ => isThread_of_eq_executor) hrun, ⟨hy, fun d => ?_⟩, hrest,
        fun e' hne he' => hothers e' hne ▸ he'⟩
      obtain ⟨hworker, hphase⟩ := hdefiners d
      obtain ⟨hw, hr, hu⟩ := hx.2 d
      exact ⟨hworker.trans hw, hphase ▸ hr, hphase ▸ hu⟩)
    ⟨h, hsettled⟩ T.noExecutorThreads
  refine ⟨y, hxy, hy, hsettled', fun e => ?_⟩
  by_cases he : e < T.noExecutorThreads
  · exact hrest e he
  · exact hy.observes.executor_atRest (Nat.not_lt.mp he)

/-- The definers at last send all replies on. -/
theorem Regular.forwards (h : Regular P T p x) (hsettled : ∀ d, (x.1.definers d).Settled)
    (hrest : ∀ e, (x.1.executors e).AtRest) :
    ∃ y, Follow P T Actor.IsThread x y ∧ Regular P T p y ∧ Quiescent y.1 := by
  obtain ⟨y, hxy, ⟨hy, -, hexecutors⟩, hdefiners⟩ := exists_forall_lt
    (I := fun x => Regular P T p x ∧ (∀ d, (x.1.definers d).Settled)
      ∧ ∀ e, (x.1.executors e).AtRest)
    (G := fun d y => (y.1.definers d).AtRest) (fun x d hx => by
      obtain ⟨y, hxy, hy, hrun, hatRest⟩ := hx.1.definer_atRest d
      obtain ⟨-, heq⟩ := DefinerRun.settled hrun (hx.2.1 d)
      refine ⟨y, hxy, ⟨hy, fun d' => ?_, fun e => heq ▸ hx.2.2 e⟩, hatRest,
        fun d' hne hd' => DefinerRun.definers_eq hrun hne ▸ hd'⟩
      by_cases hne : d' = d
      · exact hne ▸ hatRest.settled
      · exact DefinerRun.definers_eq hrun hne ▸ hx.2.1 d')
    ⟨h, hsettled, hrest⟩ T.noDefinerThread
  refine ⟨y, hxy, hy, fun d => ?_, hexecutors⟩
  by_cases hd : d < T.noDefinerThread
  · exact hdefiners d hd
  · exact hy.observes.reachable.definer_atRest (Nat.not_lt.mp hd)

/-- At rest, everything has been answered. -/
theorem Regular.answers (h : Regular P T p x) (hrest : Quiescent x.1) :
    Multiset.Rel (IsReplyTo P) (x.1.asked P T) (x.1.answers T) := by
  have hreach := h.observes.reachable
  refine hreach.balance hrest (fun e => ?_)
  refine Observation.answers (h.observes.observant e) (hrest.executor e)
    (h.admitted e).of_restrict (fun t ht => ?_)
  obtain ⟨d, bucket, hbucket, htb⟩ := hreach.inv.handedBy_of_received ht
  exact h.answerable _ t (hreach.inv.asked_of_mem_bucket hbucket htb)

/-- The three runs together. -/
theorem Regular.quiesces (hlive : (completingContract.restrict p).Live)
    (hknown : ∀ s c r, p s c r → ShowsKnown ⟨c, r⟩) (h : Regular P T p x) :
    ∃ y, Follow P T Actor.IsThread x y ∧ Regular P T p y ∧ Quiescent y.1 := by
  obtain ⟨x₁, hrun₁, h₁, hsettled₁⟩ := h.settles
  obtain ⟨x₂, hrun₂, h₂, hsettled₂, hexecutors₂⟩ := h₁.executes hlive hknown hsettled₁
  obtain ⟨y, hrun₃, h₃, hquiescent⟩ := h₂.forwards hsettled₂ hexecutors₂
  exact ⟨y, (hrun₁.trans hrun₂).trans hrun₃, h₃, hquiescent⟩

/-- **The server comes to rest.** From every state it has come to, by steps of
its threads alone and with what NDB answers among the things it may – as long
as it always answers one, and what is read has known types – it can come to a
state in which nothing is on its way; and the requests are then those there
were. -/
theorem comes_to_rest (hlive : (completingContract.restrict p).Live)
    (hknown : ∀ s c r, p s c r → ShowsKnown ⟨c, r⟩) (h : Regular P T p x) :
    ∃ y, Follow P T Actor.IsThread x y ∧ Regular P T p y ∧ Quiescent y.1
      ∧ ∀ d, (y.1.definers d).requests = (x.1.definers d).requests := by
  obtain ⟨y, hrun, hy, hquiescent⟩ := h.quiesces hlive hknown
  exact ⟨y, hrun, hy, hquiescent, Follow.requests_eq (fun _ h => h) hrun⟩

/-- Two transactions have been prepared and one of them has been called back: the
server comes to rest from there. -/
theorem comes_to_rest_crossing :
    (prepared (threeRun.1.take 24)).length = 2 ∧ (calledBack (threeRun.1.take 24)).length = 1
      ∧ ∃ s y, Observes wireFormat oneEach s (firstTraces (threeRun.1.take 24))
        ∧ Follow wireFormat oneEach Actor.IsThread (s, firstTraces (threeRun.1.take 24)) y
        ∧ Quiescent y.1 ∧ (y.1.definers 0).requests = threeRequests := by
  obtain ⟨left, handed, pushed, progress, h⟩ := exists_watched_take 24
  have hobserves := observes_requested.trans (h.mono (fun _ _ => trivial))
  have hregular : Regular wireFormat oneEach (fun _ c r => ShowsKnown ⟨c, r⟩)
      (first _ _ handed pushed, firstTraces (threeRun.1.take 24)) :=
    ⟨hobserves, admitted_threeRun 24,
      fun client t ht => answerable_threeTuples t (mem_threeTuples_of_asked rfl ht)⟩
  obtain ⟨y, hfollow, -, hrest, hrequests⟩ :=
    comes_to_rest showingContract_live (fun _ _ _ hknown => hknown) hregular
  exact ⟨rfl, rfl, _, y, hobserves, hfollow, hrest, hrequests 0⟩

end Pipeline

end VoloDB
