import Mathlib.Algebra.BigOperators.Group.Finset.Piecewise
import Mathlib.Algebra.Order.BigOperators.Group.Finset
import VoloDB.BatchAnswers
import VoloDB.Delivery

/-!
# The server at rest

What the server owes its clients is that each of their transactions is
answered once. While there are messages on their way this cannot be read off
a state: `Delivers` says of such a state only that nothing was lost so far.
In a state in which nothing is on its way any more – all sockets are empty,
no thread holds a message, every executor has come to the end of its batch –
it can: `answered_of_quiescent` says that there the replies that have been
sent are one to each of the tuples that have been asked for.

This takes what the executors have been told by NDB, which the state does not
record. `Observes` goes along with the steps of the server and notes the
calls of every executor with their answers. What an executor has gone through
is a run of `executeBatches` on the buckets it has received, up to where it
is (`Replays`), and so what `BatchAnswers` says of such runs holds of it.
-/

namespace VoloDB

open Interaction FrameDecoder NDBMessageProcessor NDBMessageExecutor Stride

namespace NDBMessageExecutor

variable {P : Protobuf}

/-- One more batch at the end. -/
theorem executeBatches_concat (batches : List (List (List FrameMessagesTuple)))
    (messages : List (List FrameMessagesTuple)) (start : List NdbTransactionState) :
    executeBatches P (batches ++ [messages]) start
      = executeBatches P batches start >>= fun pending => executeBatch P messages pending := by
  induction batches generalizing start with
  | nil => exact Prog.bind_pure (executeBatch P messages start)
  | cons first batches ih =>
    show executeBatch P first start >>= executeBatches P (batches ++ [messages]) = _
    rw [funext ih]
    exact (Prog.bind_assoc _ _ _).symm

end NDBMessageExecutor

namespace Pipeline

variable (P : Protobuf) (T : Threads)

/-! ## Observing the executors -/

/-- An executor that is about to make a call. -/
def ExecutorPhase.Calling (phase : ExecutorPhase) : Prop :=
  ∃ c k, phase = .running (.call c k)

/-- The call an executor makes in a step, with its answer. -/
def Calls (s : State) (e : Nat) (event : Event Answer) (s' : State) : Prop :=
  ∃ k, (s.executors e).phase = .running (.call event.1 k)
    ∧ (s'.executors e).phase = .running (k event.2)

/-- **One step, observed**: a call of an executor is noted with its answer. -/
inductive Observed : State × (Nat → Trace) → Actor → State × (Nat → Trace) → Prop
  | silent {s s' : State} {actor : Actor} (traces : Nat → Trace) (h : Step P T s actor s')
      (hsilent : ∀ e, actor = .executor e → ¬ (s.executors e).phase.Calling) :
    Observed (s, traces) actor (s', traces)
  | call {s s' : State} {e : Nat} {event : Event Answer} (traces : Nat → Trace)
      (h : Step P T s (.executor e) s') (hcalls : Calls s e event s') :
    Observed (s, traces) (.executor e)
      (s', Function.update traces e (traces e ++ [event]))

/-- What follows by steps of certain actors. -/
def Follow (actors : Actor → Prop) (x y : State × (Nat → Trace)) : Prop :=
  Relation.ReflTransGen (fun x y => ∃ actor, actors actor ∧ Observed P T x actor y) x y

/-- **The server has come to `s`**, and its executors have made these calls. -/
def Observes (s : State) (traces : Nat → Trace) : Prop :=
  Follow P T (fun _ => True) (State.init, fun _ => []) (s, traces)

variable {P T}

theorem Observed.step {x y : State × (Nat → Trace)} {actor : Actor}
    (h : Observed P T x actor y) : Step P T x.1 actor y.1 := by
  cases h with
  | silent traces h => exact h
  | call traces h => exact h

/-- A step in which an executor makes a call. -/
inductive CallStep (T : Threads) (s : State) (e : Nat) :
    Event Answer → ExecutorPhase → State → Prop
  | call {c : Call} {k : Answer c → Exec (List NdbTransactionState)}
      (hphase : (s.executors e).phase = .running (.call c k))
      (hc : ∀ identifier bytes, c ≠ .send identifier bytes) (r : Answer c) :
    CallStep T s e ⟨c, r⟩ (.running (k r)) (s.setExecutor e { s.executors e with
      phase := .running (k r)
      progress := (s.executors e).progress.after c })
  | send {identifier bytes : Bytes} {k : Unit → Exec (List NdbTransactionState)}
      (hphase : (s.executors e).phase = .running (.call (.send identifier bytes) k)) :
    CallStep T s e ⟨.send identifier bytes, ()⟩ (.running (k ())) (s.push (e % T.noDefinerThread)
      { s.definers (e % T.noDefinerThread) with
        sink := (identifier, bytes) ::ₘ (s.definers (e % T.noDefinerThread)).sink }
      e { s.executors e with phase := .running (k ()) } (identifier, bytes))

/-- **An executor that is about to make a call makes it** in its next step. -/
theorem Step.callStep {s s' : State} {e : Nat} (h : Step P T s (.executor e) s')
    (hcalling : (s.executors e).phase.Calling) :
    ∃ event phase, CallStep T s e event phase s' := by
  obtain ⟨c, k, hrunning⟩ := hcalling
  cases h with
  | receiveTask h hphase =>
    rw [h, hphase] at hrunning
    exact nomatch hrunning
  | execute h hphase =>
    rw [h, hphase] at hrunning
    exact nomatch hrunning
  | finished h hphase =>
    rw [h, hphase] at hrunning
    exact nomatch hrunning
  | call h hphase hc r =>
    subst h
    exact ⟨_, _, .call hphase hc r⟩
  | send he hd hphase =>
    subst he hd
    exact ⟨_, _, .send hphase⟩

theorem CallStep.phase_eq {s s' : State} {e : Nat} {event : Event Answer}
    {phase : ExecutorPhase} (h : CallStep T s e event phase s') :
    (s'.executors e).phase = phase := by
  cases h with
  | call hphase hc r =>
    show (Function.update s.executors e _ e).phase = _
    rw [Function.update_self]
  | send hphase =>
    show (Function.update s.executors e _ e).phase = _
    rw [Function.update_self]

theorem CallStep.calls {s s' : State} {e : Nat} {event : Event Answer}
    {phase : ExecutorPhase} (h : CallStep T s e event phase s') : Calls s e event s' := by
  have hphase' := h.phase_eq
  cases h with
  | call hphase hc r => exact ⟨_, hphase, hphase'⟩
  | send hphase => exact ⟨_, hphase, hphase'⟩

/-- Every step can be observed. -/
theorem Step.observed {s s' : State} {actor : Actor} (h : Step P T s actor s')
    (traces : Nat → Trace) : ∃ traces', Observed P T (s, traces) actor (s', traces') := by
  by_cases hcalling : ∃ e, actor = .executor e ∧ (s.executors e).phase.Calling
  · obtain ⟨e, rfl, hcalling⟩ := hcalling
    obtain ⟨event, phase, hstep⟩ := h.callStep hcalling
    exact ⟨_, .call traces h hstep.calls⟩
  · exact ⟨_, .silent traces h (fun e he hc => hcalling ⟨e, he, hc⟩)⟩

/-- **Every state the server reaches can be observed.** -/
theorem Reachable.observes {s : State} (h : Reachable P T s) :
    ∃ traces, Observes P T s traces := by
  induction h with
  | refl => exact ⟨_, .refl⟩
  | tail _ hstep ih =>
    obtain ⟨actor, hactor, hstep⟩ := hstep
    obtain ⟨traces, ih⟩ := ih
    obtain ⟨traces', hobserved⟩ := hstep.observed traces
    exact ⟨traces', ih.tail ⟨actor, hactor, hobserved⟩⟩

theorem Observes.reachable {s : State} {traces : Nat → Trace} (h : Observes P T s traces) :
    Reachable P T s :=
  Relation.ReflTransGen.lift (p := fun s s' => ∃ actor, True ∧ Step P T s actor s') Prod.fst
    (fun _ _ ⟨actor, hactor, hobserved⟩ => ⟨actor, hactor, hobserved.step⟩) _ _ h

/-! ## What an executor has gone through -/

variable (P) in
/-- **The calls of an executor are those of a run**: of all its batches so
far, and of a part of the batch it works on. -/
inductive Replays : ExecutorPhase → List (List FrameMessagesTuple) → Trace → Prop
  | receiving {batches : List (List (List FrameMessagesTuple))}
      {messages : List (List FrameMessagesTuple)} {pending : List NdbTransactionState}
      {trace : Trace} (hlimit : messages.length ≤ 1024)
      (h : (executeBatches P batches []).Runs trace (.ok pending)) :
    Replays (.receiving messages pending) (batches.flatten ++ messages) trace
  | running {batches : List (List (List FrameMessagesTuple))}
      {messages : List (List FrameMessagesTuple)} {pending : List NdbTransactionState}
      {front back : Trace} {program : Exec (List NdbTransactionState)}
      (hfront : (executeBatches P batches []).Runs front (.ok pending))
      (hmessages : messages ≠ [])
      (hback : (executeBatch P messages pending).Leaves back program) :
    Replays (.running program) (batches.flatten ++ messages) (front ++ back)

section Replays

variable {received : List (List FrameMessagesTuple)} {trace : Trace}

theorem Replays.receiveTask {messages : List (List FrameMessagesTuple)}
    {pending : List NdbTransactionState}
    (h : Replays P (.receiving messages pending) received trace)
    (hlimit : messages.length < 1024) (bucket : List FrameMessagesTuple) :
    Replays P (.receiving (messages ++ [bucket]) pending) (received ++ [bucket]) trace := by
  cases h with
  | receiving _ h =>
    rw [List.append_assoc]
    refine .receiving ?_ h
    rw [List.length_append]
    exact hlimit

theorem Replays.execute {messages : List (List FrameMessagesTuple)}
    {pending : List NdbTransactionState}
    (h : Replays P (.receiving messages pending) received trace) (hmessages : messages ≠ []) :
    Replays P (.running (executeBatch P messages pending)) received trace := by
  cases h with
  | receiving _ h =>
    rw [← List.append_nil trace]
    exact .running h hmessages (.refl _)

theorem Replays.call {c : Call} {k : Answer c → Exec (List NdbTransactionState)}
    (h : Replays P (.running (.call c k)) received trace) (r : Answer c) :
    Replays P (.running (k r)) received (trace ++ [⟨c, r⟩]) := by
  cases h with
  | running hfront hmessages hback =>
    rw [List.append_assoc]
    exact .running hfront hmessages (hback.tail r)

theorem Replays.finished {pending : List NdbTransactionState}
    (h : Replays P (.running (.pure pending)) received trace) :
    Replays P (.receiving [] pending) received trace := by
  cases h with
  | @running batches messages _ front back _ hfront hmessages hback =>
    have hrun := hfront.bind (f := executeBatch P messages) (hback.runs (.pure _))
    rw [List.append_nil, ← executeBatches_concat] at hrun
    have hflatten : batches.flatten ++ messages = (batches ++ [messages]).flatten ++ [] := by
      rw [List.flatten_append, List.flatten_singleton, List.append_nil]
    rw [hflatten]
    exact .receiving (Nat.zero_le _) hrun

end Replays

variable (P) in
/-- **The invariant of an executor that is observed**: its calls replay, and
what it has pushed are the replies among them. -/
structure Observation (executor : Executor)
    (pushed : List (Option FrameMessagesTuple × Bytes × Bytes)) (trace : Trace) : Prop where
  replays : Replays P executor.phase executor.received trace
  pushed_eq : pushed.map Prod.snd = replies trace

/-- A call that is no reply. -/
theorem replyOf_of_ne_send {c : Call} {r : Answer c}
    (hc : ∀ identifier bytes, c ≠ .send identifier bytes) : replyOf ⟨c, r⟩ = none := by
  cases c with
  | send identifier bytes => exact absurd rfl (hc identifier bytes)
  | _ => rfl

/-- What is known of all executors where one step concerns one of them. -/
theorem Observation.update {s : State} {traces : Nat → Trace} {e : Nat} {executor : Executor}
    (hs : ∀ e, Observation P (s.executors e) (s.pushedBy e) (traces e))
    (he : Observation P executor (s.pushedBy e) (traces e)) (e' : Nat) :
    Observation P (Function.update s.executors e executor e') (s.pushedBy e') (traces e') :=
  (Function.forall_update_iff s.executors
    (fun e' x => Observation P x (s.pushedBy e') (traces e'))).mpr ⟨he, fun e' _ => hs e'⟩ e'

/-- A step that is no call. -/
theorem Step.observation {s s' : State} {actor : Actor} {traces : Nat → Trace}
    (h : Step P T s actor s')
    (hsilent : ∀ e, actor = .executor e → ¬ (s.executors e).phase.Calling)
    (hs : ∀ e, Observation P (s.executors e) (s.pushedBy e) (traces e)) :
    ∀ e, Observation P (s'.executors e) (s'.pushedBy e) (traces e) := by
  cases h with
  | @assign d e definer executor bucket tasks hd he hphase =>
    subst he
    exact Observation.update hs ⟨(hs e).replays, (hs e).pushed_eq⟩
  | @receiveTask e executor messages pending bucket tasks h hphase hlimit htasks =>
    subst h
    exact Observation.update hs
      ⟨(hphase ▸ (hs e).replays).receiveTask hlimit bucket, (hs e).pushed_eq⟩
  | @execute e executor messages pending h hphase hmessages hready =>
    subst h
    exact Observation.update hs ⟨(hphase ▸ (hs e).replays).execute hmessages, (hs e).pushed_eq⟩
  | @finished e executor pending h hphase =>
    subst h
    exact Observation.update hs ⟨(hphase ▸ (hs e).replays).finished, (hs e).pushed_eq⟩
  | call h hphase => exact absurd ⟨_, _, h ▸ hphase⟩ (hsilent _ rfl)
  | send he hd hphase => exact absurd ⟨_, _, he ▸ hphase⟩ (hsilent _ rfl)
  | _ => exact hs

theorem pushedBy_push {s : State} {d : Nat} {definer : Definer} {e : Nat} {executor : Executor}
    {reply : Bytes × Bytes} (e' : Nat) :
    (s.push d definer e executor reply).pushedBy e' = s.pushedBy e'
      ++ (if e = e' then some (executor.progress.subject, reply) else none).toList :=
  filterMap_append_ite _ s.pushed _

/-- A step that is a call. -/
theorem CallStep.observation {s s' : State} {e : Nat} {event event' : Event Answer}
    {phase : ExecutorPhase} {traces : Nat → Trace} (h : CallStep T s e event phase s')
    (hcalls : Calls s e event' s')
    (hs : ∀ e, Observation P (s.executors e) (s.pushedBy e) (traces e)) :
    ∀ e', Observation P (s'.executors e') (s'.pushedBy e')
      (Function.update traces e (traces e ++ [event']) e') := by
  obtain ⟨c', r'⟩ := event'
  obtain ⟨k', hbefore, hafter⟩ := hcalls
  rw [h.phase_eq] at hafter
  intro e'
  by_cases he : e' = e
  · subst he
    rw [Function.update_self]
    have hreplays := (hbefore ▸ (hs e').replays).call r'
    cases h with
    | call hphase hc r =>
      rw [hbefore] at hphase
      cases hphase
      refine ⟨?_, ?_⟩
      · show Replays P (Function.update s.executors e' _ e').phase
          (Function.update s.executors e' _ e').received _
        rw [Function.update_self]
        exact hafter ▸ hreplays
      · rw [replies_append, replies_cons_of_none (replyOf_of_ne_send hc)]
        exact (hs e').pushed_eq.trans (List.append_nil _).symm
    | send hphase =>
      rw [hbefore] at hphase
      cases hphase
      refine ⟨?_, ?_⟩
      · show Replays P (Function.update s.executors e' _ e').phase
          (Function.update s.executors e' _ e').received _
        rw [Function.update_self]
        exact hafter ▸ hreplays
      · rw [pushedBy_push, if_pos rfl, List.map_append, (hs e').pushed_eq, replies_append]
        rfl
  · rw [Function.update_of_ne he]
    have hexecutor : s'.executors e' = s.executors e' := by
      cases h <;> exact Function.update_of_ne he _ _
    have hpushed : s'.pushedBy e' = s.pushedBy e' := by
      cases h with
      | call hphase hc r => rfl
      | send hphase =>
        rw [pushedBy_push, if_neg (Ne.symm he), Option.toList_none, List.append_nil]
    rw [hexecutor, hpushed]
    exact hs e'

/-- What is known of every executor. -/
abbrev Observant (P : Protobuf) (x : State × (Nat → Trace)) : Prop :=
  ∀ e, Observation P (x.1.executors e) (x.1.pushedBy e) (x.2 e)

theorem Observed.observant {x y : State × (Nat → Trace)} {actor : Actor}
    (h : Observed P T x actor y) (hx : Observant P x) : Observant P y := by
  cases h with
  | silent traces h hsilent => exact h.observation hsilent hx
  | call traces h hcalls =>
    obtain ⟨k, hphase, -⟩ := id hcalls
    obtain ⟨event', phase, hstep⟩ := h.callStep ⟨_, k, hphase⟩
    exact hstep.observation hcalls hx

theorem Follow.observant {actors : Actor → Prop} {x y : State × (Nat → Trace)}
    (h : Follow P T actors x y) (hx : Observant P x) : Observant P y := by
  induction h with
  | refl => exact hx
  | tail _ hstep ih =>
    obtain ⟨actor, -, hobserved⟩ := hstep
    exact hobserved.observant ih

/-- **The run lemma**: what the executors have gone through are runs. -/
theorem Observes.observant {s : State} {traces : Nat → Trace} (h : Observes P T s traces) :
    Observant P (s, traces) :=
  Follow.observant h (fun _ => ⟨show Replays P _ (List.flatten [] ++ []) [] from
    .receiving (Nat.zero_le _) (.pure []), rfl⟩)

/-! ## At rest -/

/-- **A definer at rest**: nothing waits for it, and it holds nothing. -/
structure Definer.AtRest (definer : Definer) : Prop where
  worker : definer.worker = []
  sink : definer.sink = 0
  received : definer.phase.received = []
  unsent : definer.phase.unsent = 0
  collected : definer.phase.collected = []
  leaving : definer.phase.leaving = []

/-- **An executor at rest**: nothing waits for it, and it has come to the end
of its batches. -/
structure Executor.AtRest (executor : Executor) : Prop where
  tasks : executor.tasks = 0
  idle : executor.phase.Idle

/-- **A server at rest.** -/
structure Quiescent (s : State) : Prop where
  definer : ∀ d, (s.definers d).AtRest
  executor : ∀ e, (s.executors e).AtRest

variable (P T) in
/-- **What the clients have asked for**: the tuples of all requests. -/
def State.asked (s : State) : Multiset FrameMessagesTuple :=
  ∑ d ∈ Finset.range T.noDefinerThread, ((s.definers d).requests.flatMap (decodePair P))

variable (T) in
/-- **What has been sent to them.** -/
def State.answers (s : State) : Multiset (Bytes × Bytes) :=
  ∑ d ∈ Finset.range T.noDefinerThread, ((s.definers d).sent)

/-! ## What threads there are -/

/-- A list is its parts by a key. -/
theorem sum_flatMap_key {α β γ : Type} (key : α → Nat) (value : α → β) (f : β → List γ)
    {n : Nat} {xs : List α} (h : ∀ x ∈ xs, key x < n) :
    ∑ i ∈ Finset.range n,
        (((xs.filterMap (fun x => if key x = i then some (value x) else none)).flatMap f :
          List γ) : Multiset γ)
      = (xs.flatMap (fun x => f (value x)) : List γ) := by
  induction xs with
  | nil => exact Finset.sum_const_zero
  | cons x xs ih =>
    obtain ⟨hx, hxs⟩ := List.forall_mem_cons.mp h
    have hcons : ∀ i, ((((x :: xs).filterMap
        (fun x => if key x = i then some (value x) else none)).flatMap f : List γ) : Multiset γ)
        = (if key x = i then (f (value x) : Multiset γ) else 0)
          + ((xs.filterMap (fun x => if key x = i then some (value x) else none)).flatMap f :
            List γ) := by
      intro i
      by_cases hi : key x = i
      · rw [List.filterMap_cons, if_pos hi, if_pos hi, List.flatMap_cons, Multiset.coe_add]
      · rw [List.filterMap_cons, if_neg hi, if_neg hi, zero_add]
    rw [Finset.sum_congr rfl (fun i _ => hcons i), Finset.sum_add_distrib, ih hxs,
      Finset.sum_ite_eq, if_pos (Finset.mem_range.mpr hx), List.flatMap_cons, Multiset.coe_add]

/-- What is related part by part is related as a whole. -/
theorem rel_sum {α β ι : Type} {r : α → β → Prop} {f : ι → Multiset α} {g : ι → Multiset β}
    {is : Finset ι} (h : ∀ i ∈ is, (f i).Rel r (g i)) :
    (∑ i ∈ is, f i).Rel r (∑ i ∈ is, g i) := by
  classical
  induction is using Finset.induction_on with
  | empty => exact .zero
  | insert i is hi ih =>
    rw [Finset.sum_insert hi, Finset.sum_insert hi]
    exact (h i (Finset.mem_insert_self i is)).add
      (ih (fun j hj => h j (Finset.mem_insert_of_mem hj)))

variable {s s' : State}

/-- Requests come in from the clients, at the definers there are. -/
theorem Step.requests_eq {actor : Actor} (h : Step P T s actor s') (d : Nat) :
    (actor = .client ∧ d < T.noDefinerThread)
      ∨ (s'.definers d).requests = (s.definers d).requests := by
  -- no other step touches the history of the requests
  have hset : ∀ {d' : Nat} {definer definer' : Definer}, s.definers d' = definer →
      definer'.requests = definer.requests →
      (Function.update s.definers d' definer' d).requests = (s.definers d).requests := by
    rintro d' _ definer' rfl heq
    by_cases hd : d = d'
    · subst hd
      rwa [Function.update_self]
    · rw [Function.update_of_ne hd]
  cases h with
  | @request d' definer hd h request =>
    by_cases heq : d = d'
    · exact Or.inl ⟨rfl, heq ▸ hd⟩
    · exact Or.inr (congrArg Definer.requests (Function.update_of_ne heq _ _))
  | receiveRequest h | noRequest h | decode h | decodeFails h | assigned h | receiveReply h
  | collected h | collectFails h | forward h | forwarded h => exact Or.inr (hset h rfl)
  | assign hd => exact Or.inr (hset hd rfl)
  | send he hd => exact Or.inr (hset hd rfl)
  | receiveTask | execute | call | finished => exact Or.inr rfl

theorem Reachable.requests_eq_nil (h : Reachable P T s) {d : Nat} (hd : T.noDefinerThread ≤ d) :
    (s.definers d).requests = [] := by
  induction h with
  | refl => rfl
  | tail _ hstep ih =>
    obtain ⟨actor, -, hstep⟩ := hstep
    rw [(hstep.requests_eq d).resolve_left (fun h => Nat.not_lt.mpr hd h.2)]
    exact ih

/-- Without requests there are no buckets. -/
theorem Batch.buckets_eq_nil {batch : Batch} (h : batch.requests = []) :
    batch.buckets P T = [] := by
  unfold Batch.buckets Batch.tuples
  rw [h]
  rfl

/-- Buckets are handed over by the definers there are, to the executors there
are. -/
theorem Reachable.handed_lt (h : Reachable P T s) {x : Nat × Nat × List FrameMessagesTuple}
    (hx : x ∈ s.handed) : x.1 < T.noDefinerThread ∧ x.2.1 < T.noExecutorThreads := by
  obtain ⟨d, e, bucket⟩ := x
  have hhanded : (e, bucket) ∈ s.handedBy d := List.mem_filterMap.mpr ⟨_, hx, if_pos rfl⟩
  obtain ⟨batch, hbatch, hbucket⟩ := h.inv.mem_batches hhanded
  refine ⟨Nat.lt_of_not_le (fun hd => ?_), ?_⟩
  · -- a definer there is not has had no request, and so no bucket
    obtain ⟨received, -, hrequests⟩ := (h.inv.definer d).requests
    rw [h.requests_eq_nil hd] at hrequests
    have hnil := (List.append_eq_nil_iff.mp (List.append_eq_nil_iff.mp hrequests.symm).1).1
    have hbatchNil : batch.requests = [] := List.flatMap_eq_nil_iff.mp hnil batch hbatch
    rw [Batch.buckets_eq_nil hbatchNil] at hbucket
    exact absurd hbucket List.not_mem_nil
  · exact (distributed P T batch).keys_lt e (List.mem_map_of_mem hbucket)

/-- A tuple that was received came in a bucket that was handed over. -/
theorem Inv.handedBy_of_received (h : Inv P T s) {e : Nat} {t : FrameMessagesTuple}
    (ht : t ∈ (s.executors e).received.flatten) :
    ∃ d bucket, (e, bucket) ∈ s.handedBy d ∧ t ∈ bucket := by
  obtain ⟨bucket, hbucket, htb⟩ := List.mem_flatten.mp ht
  have hhanded : bucket ∈ (s.handedTo e : Multiset (List FrameMessagesTuple)) := by
    rw [(h.executor e).handed]
    exact Multiset.mem_add.mpr (Or.inl (Multiset.mem_coe.mpr hbucket))
  obtain ⟨d, hd⟩ := mem_handedTo (Multiset.mem_coe.mp hhanded)
  exact ⟨d, bucket, hd, htb⟩

/-- Tuples are taken by the executors there are. -/
theorem Reachable.taken_lt (h : Reachable P T s) {e : Nat} {t : FrameMessagesTuple}
    (ht : t ∈ (s.executors e).progress.taken) : e < T.noExecutorThreads := by
  obtain ⟨remaining, htaken, -⟩ := (h.inv.executor e).taken
  have hmem : t ∈ (s.executors e).received.flatten :=
    htaken ▸ List.mem_append_left remaining ht
  obtain ⟨d, bucket, hd, -⟩ := h.inv.handedBy_of_received hmem
  obtain ⟨⟨d', e', bucket'⟩, hmem', heq⟩ := List.mem_filterMap.mp hd
  by_cases hd' : d' = d
  · rw [if_pos hd', Option.some.injEq, Prod.mk.injEq] at heq
    exact heq.1 ▸ (h.handed_lt hmem').2
  · rw [if_neg hd'] at heq
    exact absurd heq (by simp)

/-- Replies are pushed by the executors there are. -/
theorem Reachable.pushedBy_lt (h : Reachable P T s) {e : Nat}
    {pushed : Option FrameMessagesTuple × Bytes × Bytes} (hpushed : pushed ∈ s.pushedBy e) :
    e < T.noExecutorThreads := by
  obtain ⟨t, ht, -⟩ := h.inv.asked_of_pushed hpushed
  exact h.taken_lt ht

theorem Reachable.pushed_lt (h : Reachable P T s)
    {x : Nat × Option FrameMessagesTuple × Bytes × Bytes} (hx : x ∈ s.pushed) :
    x.1 < T.noExecutorThreads :=
  h.pushedBy_lt (List.mem_filterMap.mpr ⟨x, hx, if_pos rfl⟩)

/-! ## The balance of a server at rest -/

/-- Everything a definer at rest has been asked for has been handed over. -/
theorem DefinerInv.asked_eq {definer : Definer}
    {handed : List (Nat × List FrameMessagesTuple)} {pushed : List (Bytes × Bytes)}
    (h : DefinerInv P T definer handed pushed) (hrest : definer.AtRest) :
    (definer.requests.flatMap (decodePair P)).Perm (handed.flatMap Prod.snd) := by
  obtain ⟨received, hreceived, hrequests⟩ := h.requests
  rw [hrest.received] at hreceived
  have hbuckets := h.buckets
  rw [hrest.unsent, zero_add, Multiset.coe_eq_coe] at hbuckets
  obtain rfl : received = [] := by
    cases received with
    | nil => rfl
    | cons request received => exact absurd hreceived (List.cons_ne_nil _ _).symm
  rw [hrest.worker, List.append_nil, List.append_nil] at hrequests
  rw [hrequests, List.flatMap_assoc]
  refine List.Perm.trans ?_ (hbuckets.flatMap_right Prod.snd)
  rw [List.flatMap_assoc]
  exact List.Perm.flatMap_left _ (fun batch _ => (distributed P T batch).perm.symm)

/-- Everything that was pushed to a definer at rest has been sent. -/
theorem DefinerInv.pushed_eq {definer : Definer}
    {handed : List (Nat × List FrameMessagesTuple)} {pushed : List (Bytes × Bytes)}
    (h : DefinerInv P T definer handed pushed) (hrest : definer.AtRest) :
    (pushed : Multiset (Bytes × Bytes)) = definer.sent := by
  obtain ⟨collected, hcollected, hpushed⟩ := h.replies
  rw [hrest.collected] at hcollected
  obtain rfl : collected = [] := by
    cases collected with
    | nil => rfl
    | cons reply collected => exact absurd hcollected (List.cons_ne_nil _ _).symm
  rwa [hrest.sink, hrest.leaving, Multiset.coe_nil, add_zero, add_zero, zero_add] at hpushed

/-- Everything an executor at rest has been handed has been answered. -/
theorem Observation.answers {executor : Executor}
    {pushed : List (Option FrameMessagesTuple × Bytes × Bytes)} {trace : Trace}
    (h : Observation P executor pushed trace) (hrest : executor.AtRest)
    (hndb : completingContract.Admitted .empty trace)
    (hanswerable : ∀ t ∈ executor.received.flatten, Answerable t.messages) :
    Multiset.Rel (IsReplyTo P) executor.received.flatten (pushed.map Prod.snd) := by
  obtain ⟨pending, hphase⟩ := hrest.idle
  rw [h.pushed_eq]
  have hreplays := h.replays
  rw [hphase] at hreplays
  generalize executor.received = received at hreplays hanswerable
  cases hreplays with
  | receiving _ hrun =>
    rw [List.append_nil] at hanswerable ⊢
    -- nothing is left pending, and so nothing waits
    obtain rfl := ((settles_executeBatches P _ hrun
      (Contract.Admitted.of_restrict hndb)).returns pending rfl).1
    obtain ⟨left, hleft, hserves⟩ :=
      balances_executeBatches hanswerable trace _ hrun
    obtain rfl := Multiset.rel_zero_right.mp hleft
    exact hserves.answers

/-- What the definers have handed over is what the executors have been
handed. -/
theorem Reachable.sum_handedBy (h : Reachable P T s) :
    ∑ d ∈ Finset.range T.noDefinerThread,
        (((s.handedBy d).flatMap Prod.snd : List FrameMessagesTuple) :
          Multiset FrameMessagesTuple)
      = ∑ e ∈ Finset.range T.noExecutorThreads,
        (((s.handedTo e).flatMap id : List FrameMessagesTuple) : Multiset FrameMessagesTuple) := by
  unfold State.handedBy State.handedTo
  rw [sum_flatMap_key _ _ _ (fun x hx => (h.handed_lt hx).1),
    sum_flatMap_key _ _ _ (fun x hx => (h.handed_lt hx).2)]
  rfl

/-- What the executors have pushed is what the definers have been sent. -/
theorem Reachable.sum_pushedTo (h : Reachable P T s) :
    ∑ d ∈ Finset.range T.noDefinerThread, (s.pushedTo T d : Multiset (Bytes × Bytes))
      = ∑ e ∈ Finset.range T.noExecutorThreads,
        (((s.pushedBy e).map Prod.snd : List (Bytes × Bytes)) : Multiset (Bytes × Bytes)) := by
  have hto : ∀ d, s.pushedTo T d = (s.pushedTo T d).flatMap (fun reply => [reply]) :=
    fun d => (List.flatMap_singleton' _).symm
  simp only [List.map_eq_flatMap]
  rw [Finset.sum_congr rfl (fun d _ => congrArg _ (hto d))]
  unfold State.pushedTo State.pushedBy
  rw [sum_flatMap_key _ _ _ (fun x _ => Nat.mod_lt x.1 T.definer_pos),
    sum_flatMap_key _ _ _ (fun x hx => h.pushed_lt hx)]

/-- **The balance of a server at rest**: if every executor has answered what it
has received, the clients have been answered. -/
theorem Reachable.balance (h : Reachable P T s) (hrest : Quiescent s)
    (hexecutors : ∀ e, Multiset.Rel (IsReplyTo P) (s.executors e).received.flatten
      ((s.pushedBy e).map Prod.snd)) :
    Multiset.Rel (IsReplyTo P) (s.asked P T) (s.answers T) := by
  have hinv := h.inv
  -- what was asked for, by the executors it was handed to
  have hasked : s.asked P T = ∑ e ∈ Finset.range T.noExecutorThreads,
      ((s.executors e).received.flatten : Multiset FrameMessagesTuple) := by
    unfold State.asked
    rw [Finset.sum_congr rfl (fun d _ =>
      Multiset.coe_eq_coe.mpr ((hinv.definer d).asked_eq (hrest.definer d))),
      h.sum_handedBy]
    refine Finset.sum_congr rfl (fun e _ => Multiset.coe_eq_coe.mpr ?_)
    have hhanded := (hinv.executor e).handed
    rw [(hrest.executor e).tasks, add_zero, Multiset.coe_eq_coe] at hhanded
    rw [List.flatMap_id]
    exact hhanded.flatten
  -- what was sent, by the executors it was pushed by
  have hsent : s.answers T = ∑ e ∈ Finset.range T.noExecutorThreads,
      (((s.pushedBy e).map Prod.snd : List (Bytes × Bytes)) : Multiset (Bytes × Bytes)) := by
    rw [← h.sum_pushedTo]
    exact Finset.sum_congr rfl (fun d _ =>
      ((hinv.definer d).pushed_eq (hrest.definer d)).symm)
  rw [hasked, hsent]
  exact rel_sum (fun e _ => hexecutors e)

/-! ## The balance of any state -/

/-- **What an executor has gone through** is part of a run of batches that it
has received. -/
theorem Replays.exists_batches {phase : ExecutorPhase}
    {received : List (List FrameMessagesTuple)} {trace : Trace}
    (h : Replays P phase received trace) :
    ∃ batches : List (List (List FrameMessagesTuple)),
      batches.flatten.flatten <+: received.flatten
        ∧ ∃ program, (executeBatches P batches []).Leaves trace program := by
  cases h with
  | @receiving batches messages pending trace hlimit h =>
    refine ⟨batches, ?_, h.leaves⟩
    rw [List.flatten_append]
    exact List.prefix_append _ _
  | @running batches messages pending front back program hfront hmessages hback =>
    refine ⟨batches ++ [messages], ?_, program, ?_⟩
    · rw [List.flatten_append, List.flatten_singleton]
    · rw [executeBatches_concat]
      exact hfront.bind_leaves hback

/-- **An executor has answered** tuples that it has received, and none of them
twice. -/
theorem Observation.exists_answered {executor : Executor}
    {pushed : List (Option FrameMessagesTuple × Bytes × Bytes)} {trace : Trace}
    (h : Observation P executor pushed trace)
    (hanswerable : ∀ t ∈ executor.received.flatten, Answerable t.messages) :
    ∃ answered ≤ (executor.received.flatten : Multiset FrameMessagesTuple),
      Multiset.Rel (IsReplyTo P) answered (pushed.map Prod.snd) := by
  obtain ⟨batches, hbatches, program, hleaves⟩ := h.replays.exists_batches
  -- however the executor goes on, it answers no more than what it is given
  have hrun := hleaves.runs (Prog.runs_run failing program)
  obtain ⟨answered, hle, hreplies⟩ := (balances_executeBatches
    (fun t ht => hanswerable t (hbatches.subset ht))).exists_answered hrun
  rw [zero_add] at hle
  rw [replies_append, ← Multiset.coe_add] at hreplies
  obtain ⟨answered₁, answered₂, hreplies₁, -, rfl⟩ := Multiset.rel_add_right.mp hreplies
  refine ⟨answered₁, (Multiset.le_add_right _ _).trans (hle.trans ?_), h.pushed_eq ▸ hreplies₁⟩
  exact hbatches.sublist.subperm

/-- **A definer has handed over** no more than it was asked for. -/
theorem DefinerInv.handed_le {definer : Definer}
    {handed : List (Nat × List FrameMessagesTuple)} {pushed : List (Bytes × Bytes)}
    (h : DefinerInv P T definer handed pushed) :
    ((handed.flatMap Prod.snd : List FrameMessagesTuple) : Multiset FrameMessagesTuple)
      ≤ (definer.requests.flatMap (decodePair P) : List FrameMessagesTuple) := by
  obtain ⟨received, -, hrequests⟩ := h.requests
  have hhanded : ((handed.flatMap Prod.snd : List FrameMessagesTuple) :
      Multiset FrameMessagesTuple)
      ≤ ((definer.batches.flatMap (Batch.buckets P T)).flatMap Prod.snd :
        List FrameMessagesTuple) := by
    rw [← Multiset.coe_bind, ← Multiset.coe_bind, h.buckets, Multiset.add_bind]
    exact Multiset.le_add_left _ _
  have hbuckets : ((definer.batches.flatMap (Batch.buckets P T)).flatMap Prod.snd).Perm
      ((definer.batches.flatMap Batch.requests).flatMap (decodePair P)) := by
    rw [List.flatMap_assoc, List.flatMap_assoc]
    exact List.Perm.flatMap_left _ (fun batch _ => (distributed P T batch).perm)
  refine hhanded.trans ?_
  rw [hrequests, List.flatMap_append, List.flatMap_append, Multiset.coe_eq_coe.mpr hbuckets,
    ← Multiset.coe_add, ← Multiset.coe_add, add_assoc]
  exact Multiset.le_add_right _ _

/-- It has sent no more than was pushed to it. -/
theorem DefinerInv.sent_le {definer : Definer} {handed : List (Nat × List FrameMessagesTuple)}
    {pushed : List (Bytes × Bytes)} (h : DefinerInv P T definer handed pushed) :
    (definer.sent : Multiset (Bytes × Bytes)) ≤ pushed := by
  obtain ⟨collected, -, hpushed⟩ := h.replies
  rw [hpushed]
  exact Multiset.le_add_left _ _

/-- **An executor has received** no more than it was handed. -/
theorem ExecutorInv.received_le {executor : Executor} {handed : List (List FrameMessagesTuple)}
    {pushed : List (Option FrameMessagesTuple × Bytes × Bytes)}
    (h : ExecutorInv P executor handed pushed) :
    (executor.received.flatten : Multiset FrameMessagesTuple)
      ≤ (handed.flatMap id : List FrameMessagesTuple) := by
  rw [← List.flatMap_id, ← Multiset.coe_bind _ id, ← Multiset.coe_bind _ id, h.handed,
    Multiset.add_bind]
  exact Multiset.le_add_right _ _

/-- **What the executors have received** was asked for. -/
theorem Reachable.received_le (h : Reachable P T s) :
    ∑ e ∈ Finset.range T.noExecutorThreads,
        ((s.executors e).received.flatten : Multiset FrameMessagesTuple) ≤ s.asked P T := by
  refine (Finset.sum_le_sum (fun e _ => (h.inv.executor e).received_le)).trans ?_
  rw [← h.sum_handedBy]
  exact Finset.sum_le_sum (fun d _ => (h.inv.definer d).handed_le)

/-- **What was sent to the clients** was pushed by the executors. -/
theorem Reachable.answers_le (h : Reachable P T s) :
    s.answers T ≤ ∑ e ∈ Finset.range T.noExecutorThreads,
      (((s.pushedBy e).map Prod.snd : List (Bytes × Bytes)) : Multiset (Bytes × Bytes)) :=
  (Finset.sum_le_sum (fun d _ => (h.inv.definer d).sent_le)).trans h.sum_pushedTo.le

/-- **The answers there are** are replies to tuples that were asked for, one to
each at most: in every state, whatever NDB has answered. -/
theorem Observes.exists_answered {traces : Nat → Trace} (h : Observes P T s traces)
    (hanswerable : ∀ client t, s.Asked P client t → Answerable t.messages) :
    ∃ answered ≤ s.asked P T, Multiset.Rel (IsReplyTo P) answered (s.answers T) := by
  have hinv := h.reachable.inv
  have hexecutor : ∀ e, ∃ answered ≤ ((s.executors e).received.flatten :
      Multiset FrameMessagesTuple), Multiset.Rel (IsReplyTo P) answered
        ((s.pushedBy e).map Prod.snd) := by
    refine fun e => (h.observant e).exists_answered (fun t ht => ?_)
    obtain ⟨d, bucket, hbucket, htb⟩ := hinv.handedBy_of_received ht
    exact hanswerable _ t (hinv.asked_of_mem_bucket hbucket htb)
  choose answered hle hrel using hexecutor
  have hsum : Multiset.Rel (IsReplyTo P) (∑ e ∈ Finset.range T.noExecutorThreads, answered e)
      (∑ e ∈ Finset.range T.noExecutorThreads,
        (((s.pushedBy e).map Prod.snd : List (Bytes × Bytes)) : Multiset (Bytes × Bytes))) :=
    rel_sum (fun e _ => hrel e)
  obtain ⟨others, hothers⟩ := Multiset.le_iff_exists_add.mp h.reachable.answers_le
  rw [hothers] at hsum
  obtain ⟨answered₁, answered₂, hanswered, -, heq⟩ := Multiset.rel_add_right.mp hsum
  refine ⟨answered₁, ?_, hanswered⟩
  calc answered₁ ≤ ∑ e ∈ Finset.range T.noExecutorThreads, answered e :=
        heq ▸ Multiset.le_add_right _ _
    _ ≤ ∑ e ∈ Finset.range T.noExecutorThreads,
          ((s.executors e).received.flatten : Multiset FrameMessagesTuple) :=
        Finset.sum_le_sum (fun e _ => hle e)
    _ ≤ s.asked P T := h.reachable.received_le

/-! ## At rest, everything is answered -/

/-- **The clients of a server at rest have been answered.** In every state the
server reaches in which nothing is on its way any more, if NDB has completed
the transactions that were prepared, the replies that have been sent are one
to each of the tuples that were asked for. -/
theorem answered_of_quiescent {traces : Nat → Trace} (h : Observes P T s traces)
    (hndb : ∀ e, completingContract.Admitted .empty (traces e))
    (hanswerable : ∀ client t, s.Asked P client t → Answerable t.messages)
    (hrest : Quiescent s) : Multiset.Rel (IsReplyTo P) (s.asked P T) (s.answers T) := by
  have hinv := h.reachable.inv
  refine h.reachable.balance hrest (fun e => ?_)
  refine Observation.answers (h.observant e) (hrest.executor e) (hndb e) (fun t ht => ?_)
  obtain ⟨d, bucket, hbucket, htb⟩ := hinv.handedBy_of_received ht
  exact hanswerable _ t (hinv.asked_of_mem_bucket hbucket htb)

/-- Steps of the server: of its threads, and not of its clients. -/
def Actor.IsThread (actor : Actor) : Prop := actor ≠ .client

theorem Follow.mono {actors actors' : Actor → Prop} {x y : State × (Nat → Trace)}
    (hactors : ∀ actor, actors actor → actors' actor) (h : Follow P T actors x y) :
    Follow P T actors' x y :=
  Relation.ReflTransGen.mono
    (fun _ _ ⟨actor, hactor, hobserved⟩ => ⟨actor, hactors actor hactor, hobserved⟩) _ _ h

/-! ## Three requests -/

section First

variable {definer definer' : Definer} {executor executor' : Executor}
  {handed : List (Nat × Nat × List FrameMessagesTuple)}
  {pushed : List (Nat × Option FrameMessagesTuple × Bytes × Bytes)} {trace : Trace}
  {x : State × (Nat → Trace)}

/-- The calls of the first executor. No other has made any. -/
def firstTraces (trace : Trace) : Nat → Trace := Function.update (fun _ => []) 0 trace

variable (P T) in
/-- What only the first threads have done since, and this was observed. -/
abbrev Watched (x : State × (Nat → Trace)) (definer : Definer) (executor : Executor)
    (handed : List (Nat × Nat × List FrameMessagesTuple))
    (pushed : List (Nat × Option FrameMessagesTuple × Bytes × Bytes)) (trace : Trace) : Prop :=
  Follow P T Actor.IsThread x (first definer executor handed pushed, firstTraces trace)

theorem Watched.definerStep (h : Watched P T x definer executor handed pushed trace)
    (hstep : Step P T (first definer executor handed pushed) (.definer 0)
      ((first definer executor handed pushed).setDefiner 0 definer')) :
    Watched P T x definer' executor handed pushed trace := by
  have hnext := h.tail ⟨.definer 0, Actor.noConfusion, .silent _ hstep (fun e he => nomatch he)⟩
  unfold first State.setDefiner at hnext
  rwa [Function.update_idem] at hnext

theorem Watched.handOverStep (h : Watched P T x definer executor handed pushed trace)
    {bucket : List FrameMessagesTuple}
    (hstep : Step P T (first definer executor handed pushed) (.definer 0)
      ((first definer executor handed pushed).handOver 0 definer' 0 executor' bucket)) :
    Watched P T x definer' executor' (handed ++ [(0, 0, bucket)]) pushed trace := by
  have hnext := h.tail ⟨_, Actor.noConfusion, .silent _ hstep (fun e he => nomatch he)⟩
  unfold first State.handOver at hnext
  rwa [Function.update_idem, Function.update_idem] at hnext

theorem first_executor :
    (first definer executor handed pushed).executors 0 = executor :=
  Function.update_self (β := fun _ => Executor) 0 executor State.init.executors

theorem Watched.executorStep (h : Watched P T x definer executor handed pushed trace)
    (hstep : Step P T (first definer executor handed pushed) (.executor 0)
      ((first definer executor handed pushed).setExecutor 0 executor'))
    (hsilent : ¬ executor.phase.Calling) :
    Watched P T x definer executor' handed pushed trace := by
  have hnext := h.tail ⟨_, Actor.noConfusion, .silent _ hstep (fun e he => by
    obtain rfl := Actor.executor.inj he
    rwa [first_executor])⟩
  unfold first State.setExecutor at hnext
  rwa [Function.update_idem] at hnext

theorem Watched.callStep (h : Watched P T x definer executor handed pushed trace) {s : State}
    {phase : ExecutorPhase} {event : Event Answer}
    (hstep : Step P T (first definer executor handed pushed) (.executor 0) s)
    (hcall : CallStep T (first definer executor handed pushed) 0 event phase s) :
    Follow P T Actor.IsThread x (s, firstTraces (trace ++ [event])) := by
  have hnext := h.tail ⟨_, Actor.noConfusion, .call _ hstep hcall.calls⟩
  unfold firstTraces at hnext ⊢
  rwa [Function.update_self, Function.update_idem] at hnext

/-- A call of the first executor that is no reply. -/
theorem Watched.call (h : Watched P T x definer executor handed pushed trace) {c : Call}
    {k : Answer c → Exec (List NdbTransactionState)}
    (hphase : executor.phase = .running (.call c k))
    (hc : ∀ identifier bytes, c ≠ .send identifier bytes) (r : Answer c) :
    Watched P T x definer { executor with
      phase := .running (k r)
      progress := executor.progress.after c } handed pushed (trace ++ [⟨c, r⟩]) := by
  have hrunning : ((first definer executor handed pushed).executors 0).phase
      = .running (.call c k) := by rwa [first_executor]
  have hnext := h.callStep (.call rfl hrunning hc r) (.call hrunning hc r)
  rw [first_executor] at hnext
  unfold first State.setExecutor at hnext
  rwa [Function.update_idem] at hnext

/-- A reply of the first executor. -/
theorem Watched.send (h : Watched P T x definer executor handed pushed trace)
    {identifier bytes : Bytes} {k : Unit → Exec (List NdbTransactionState)}
    (hphase : executor.phase = .running (.call (.send identifier bytes) k)) :
    Watched P T x { definer with sink := (identifier, bytes) ::ₘ definer.sink }
      { executor with phase := .running (k ()) } handed
      (pushed ++ [(0, executor.progress.subject, identifier, bytes)])
      (trace ++ [⟨.send identifier bytes, ()⟩]) := by
  have hrunning : ((first definer executor handed pushed).executors 0).phase
      = .running (.call (.send identifier bytes) k) := by rwa [first_executor]
  have hnext := h.callStep (.send rfl rfl hrunning) (.send hrunning)
  have hdefiner : (first definer executor handed pushed).definers 0 = definer :=
    Function.update_self (β := fun _ => Definer) 0 definer State.init.definers
  rw [first_executor, Nat.zero_mod, hdefiner] at hnext
  unfold first State.push at hnext
  rwa [Function.update_idem, Function.update_idem] at hnext

/-- **A part of the run of the first executor**, with its replies in the sink of
the first definer. -/
theorem Watched.leaves {program left : Exec (List NdbTransactionState)} {rest : Trace}
    (hleaves : program.Leaves rest left)
    (h : Watched P T x definer executor handed pushed trace)
    (hphase : executor.phase = .running program) :
    ∃ progress pushed', Watched P T x { definer with sink := definer.sink + replies rest }
      { executor with phase := .running left, progress := progress } handed pushed'
      (trace ++ rest) := by
  induction hleaves generalizing definer executor pushed trace with
  | refl program =>
    refine ⟨executor.progress, pushed, ?_⟩
    rw [List.append_nil, show replies [] = [] from rfl, Multiset.coe_nil, add_zero, ← hphase]
    exact h
  | @call c k r rest left _ ih =>
    by_cases hc : ∀ identifier bytes, c ≠ .send identifier bytes
    · obtain ⟨progress, pushed', hnext⟩ := ih (h.call hphase hc r) rfl
      refine ⟨progress, pushed', ?_⟩
      rwa [List.append_assoc, List.singleton_append, ← replies_cons_of_none
        (e := ⟨c, r⟩) (replyOf_of_ne_send hc)] at hnext
    · push Not at hc
      obtain ⟨identifier, bytes, rfl⟩ := hc
      obtain ⟨progress, pushed', hnext⟩ := ih (h.send hphase) rfl
      refine ⟨progress, pushed', ?_⟩
      rwa [List.append_assoc, List.singleton_append, Multiset.cons_add, ← Multiset.add_cons]
        at hnext

end First

/-- A client that sets a row. -/
def setRequest : Bytes × Bytes :=
  (ascii "a", wireFormat.frame.serialize ⟨none,
    [⟨.set, wireFormat.set.serialize ⟨[⟨ascii "t"⟩], [], []⟩, some (ascii "x")⟩]⟩)

/-- Another client, that reads one by its key. -/
def getRequest : Bytes × Bytes :=
  (ascii "aa", wireFormat.frame.serialize ⟨none,
    [⟨.get, wireFormat.get.serialize ⟨[⟨ascii "t"⟩],
      [⟨ascii "k", none, none, some true, ascii "v"⟩], []⟩, some (ascii "y")⟩]⟩)

/-- The first client drops another store. -/
def dropRequest : Bytes × Bytes :=
  (ascii "a", wireFormat.frame.serialize ⟨none,
    [⟨.dropStore, wireFormat.dropStore.serialize ⟨⟨ascii "u"⟩⟩, some (ascii "z")⟩]⟩)

/-- The three requests. -/
def threeRequests : List (Bytes × Bytes) := [setRequest, getRequest, dropRequest]

/-- They have come to the definer. -/
def requested : State × (Nat → Trace) :=
  (first ⟨threeRequests, 0, .receiving [], threeRequests, [], []⟩
    ⟨0, .receiving [] [], [], Progress.init⟩ [] [], firstTraces [])

theorem observes_requested : Observes wireFormat oneEach requested.1 requested.2 := by
  have hrequest : ∀ {definer : Definer} {executor : Executor} (request : Bytes × Bytes),
      Observes wireFormat oneEach (first definer executor [] []) (firstTraces []) →
      Observes wireFormat oneEach (first { definer with
        worker := definer.worker ++ [request]
        requests := definer.requests ++ [request] } executor [] []) (firstTraces []) := by
    intro definer executor request h
    have hdefiner : (first definer executor [] []).definers 0 = definer :=
      Function.update_self (β := fun _ => Definer) 0 definer State.init.definers
    have hnext := h.tail ⟨_, trivial, .silent _ (.request Nat.one_pos hdefiner request)
      (fun e he => nomatch he)⟩
    unfold first State.setDefiner at hnext
    rwa [Function.update_idem] at hnext
  have hinit : Observes wireFormat oneEach State.init (fun _ => []) := .refl
  rw [← first_init, show (fun _ : Nat => ([] : Trace)) = firstTraces [] from
    (Function.update_eq_self 0 (fun _ => [])).symm] at hinit
  exact hrequest dropRequest (hrequest getRequest (hrequest setRequest hinit))

/-- What the executor is to do. -/
def threeProgram : Exec (List NdbTransactionState) := executeBatch wireFormat [threeTuples] []

/-- Its run. -/
def threeRun : Trace × Except Fault (List NdbTransactionState) := threeProgram.run crossing

/-- **The executor has been given its batch.** -/
theorem watched_running : ∃ handed, Watched wireFormat oneEach requested
    ⟨[], 0, .assigning 0, threeRequests, [⟨threeRequests, fun _ => 0⟩], []⟩
    ⟨0, .running threeProgram, [threeTuples], Progress.init⟩ handed [] [] := by
  let R := threeRequests
  let E : Executor := ⟨0, .receiving [] [], [], Progress.init⟩
  have hdecode : decodeMessages wireFormat (flat R) true = some threeTuples := by decide
  have h₀ : Watched wireFormat oneEach requested ⟨R, 0, .receiving [], R, [], []⟩ E [] [] [] :=
    .refl
  have h₁ := h₀.definerStep (.receiveRequest rfl rfl rfl)
  have h₂ := h₁.definerStep (.receiveRequest rfl rfl rfl)
  have h₃ := h₂.definerStep (.receiveRequest rfl rfl rfl)
  have h₄ : Watched wireFormat oneEach requested
      ⟨[], 0, .assigning ((0, threeTuples) ::ₘ 0), R, [⟨R, fun _ => 0⟩], []⟩ E [] [] [] :=
    h₃.definerStep (.decode rfl rfl (List.cons_ne_nil _ _) rfl rfl hdecode (fun _ => 0))
  have h₅ := h₄.handOverStep (.assign (e := 0) rfl rfl rfl)
  have hidle : ∀ messages pending,
      ¬ (ExecutorPhase.receiving messages pending).Calling := fun _ _ ⟨_, _, h⟩ => nomatch h
  have h₆ := h₅.executorStep (.receiveTask rfl rfl (by decide) (rfl : _ = threeTuples ::ₘ 0))
    (hidle _ _)
  exact ⟨_, h₆.executorStep (.execute rfl rfl (List.cons_ne_nil _ _) (.inl rfl)) (hidle _ _)⟩

/-- **A state in the middle of the run**, after so many calls. -/
theorem exists_watched_take (n : ℕ) : ∃ left handed pushed progress,
    Watched wireFormat oneEach requested ⟨[], replies (threeRun.1.take n), .assigning 0,
      threeRequests, [⟨threeRequests, fun _ => 0⟩], []⟩
      ⟨0, .running left, [threeTuples], progress⟩ handed pushed (threeRun.1.take n) := by
  obtain ⟨handed, hrunning⟩ := watched_running
  obtain ⟨_, hleaves⟩ := (Prog.runs_run crossing threeProgram).leaves
  obtain ⟨left, hleft⟩ := hleaves.take n
  obtain ⟨progress, pushed, h⟩ := hrunning.leaves hleft rfl
  rw [zero_add] at h
  exact ⟨left, handed, pushed, progress, h⟩

theorem asked_oneEach (s : State) :
    s.asked P oneEach = ((s.definers 0).requests.flatMap (decodePair P)) :=
  Finset.sum_range_one _

theorem decode_threeRequests :
    threeRequests.flatMap (decodePair wireFormat) = threeTuples := by decide

/-- These are all that have been asked for. -/
theorem mem_threeTuples_of_asked {definer : Definer} {executor : Executor}
    {handed : List (Nat × Nat × List FrameMessagesTuple)}
    {pushed : List (Nat × Option FrameMessagesTuple × Bytes × Bytes)}
    (hrequests : definer.requests = threeRequests) {client : Bytes} {t : FrameMessagesTuple}
    (h : (first definer executor handed pushed).Asked wireFormat client t) :
    t ∈ threeTuples := by
  obtain ⟨d, frame, hrequest, ht⟩ := h
  by_cases hd : d = 0
  · subst hd
    have hmem : (client, frame) ∈ definer.requests := hrequest
    rw [hrequests] at hmem
    rw [← decode_threeRequests]
    exact List.mem_flatMap.mpr ⟨_, hmem, ht⟩
  · have hnone : (client, frame) ∈ (Function.update State.init.definers 0 _ d).requests :=
      hrequest
    rw [Function.update_of_ne hd] at hnone
    exact absurd hnone List.not_mem_nil

/-- NDB keeps its side of the contract in the run. -/
theorem admitted_threeRun (n : ℕ) (e : ℕ) :
    showingContract.Admitted .empty (firstTraces (threeRun.1.take n) e) := by
  by_cases he : e = 0
  · subst he
    unfold firstTraces
    rw [Function.update_self]
    have hadmitted : completingContract.Admitted .empty threeRun.1 := admitted_threeTuples.1
    have hknown : ∀ event ∈ threeRun.1, ShowsKnown event := by
      rintro ⟨c, r⟩ hevent
      obtain rfl : r = crossing c := Prog.answer_of_mem_run crossing threeProgram hevent
      exact showsKnown_crossing c
    have hshowing := hadmitted.restrict hknown
    rw [← List.take_append_drop n threeRun.1] at hshowing
    exact (Contract.admitted_append.mp hshowing).1
  · unfold firstTraces
    rw [Function.update_of_ne he]
    trivial

/-- The replies of the run, in their order. -/
def threeReplies : List (Bytes × Bytes) :=
  [(ascii "a", replyBytes wireFormat (makeResult (ascii "z"))),
    (ascii "aa", replyBytes wireFormat { makeResult (ascii "y") with
      result := [⟨[⟨[⟨ascii "k", some .char, none, none, ascii "v"⟩]⟩], .get⟩] }),
    (ascii "a", replyBytes wireFormat { makeResult (ascii "x") with result := [⟨[], .set⟩] })]

theorem replies_threeRun : replies threeRun.1 = threeReplies := rfl

/-- **The executor has come to the end of its batch.** -/
theorem watched_executed : ∃ handed pushed progress, Watched wireFormat oneEach requested
    ⟨[], threeReplies, .assigning 0, threeRequests, [⟨threeRequests, fun _ => 0⟩], []⟩
    ⟨0, .receiving [] [], [threeTuples], progress⟩ handed pushed threeRun.1 := by
  obtain ⟨handed, hrunning⟩ := watched_running
  have hrun : threeProgram.Runs threeRun.1 (.ok []) := Prog.runs_run crossing threeProgram
  obtain ⟨progress, pushed, h⟩ := hrunning.leaves hrun.leaves_pure rfl
  rw [zero_add, replies_threeRun] at h
  exact ⟨handed, pushed, progress,
    h.executorStep (.finished rfl rfl) (fun ⟨_, _, h⟩ => nomatch h)⟩

/-- **The definer has collected the replies**, and goes on to send them. -/
theorem watched_forwarding : ∃ executor handed pushed, executor.AtRest
    ∧ Watched wireFormat oneEach requested
      ⟨[], 0, .forwarding threeReplies, threeRequests, [⟨threeRequests, fun _ => 0⟩], []⟩
      executor handed pushed threeRun.1 := by
  obtain ⟨handed, pushed, progress, h₀⟩ := watched_executed
  have h₁ := h₀.definerStep (.assigned rfl rfl)
  have h₂ := h₁.definerStep (.receiveReply rfl rfl (Multiset.cons_coe _ _).symm)
  have h₃ := h₂.definerStep (.receiveReply rfl rfl (Multiset.cons_coe _ _).symm)
  have h₄ := h₃.definerStep (.receiveReply rfl rfl (Multiset.cons_coe _ _).symm)
  have hcollect : pairs (flat threeReplies) = some threeReplies := rfl
  exact ⟨_, handed, pushed, ⟨rfl, _, rfl⟩, h₄.definerStep (.collected rfl rfl rfl hcollect)⟩

/-- The definer has sent them, and with this all is at rest. -/
theorem watched_quiescent : ∃ definer executor handed pushed,
    definer.requests = threeRequests ∧ definer.sent = threeReplies
      ∧ Watched wireFormat oneEach requested definer executor handed pushed threeRun.1
      ∧ Quiescent (first definer executor handed pushed) := by
  obtain ⟨executor, handed, pushed, hrest, h₁⟩ := watched_forwarding
  have h₂ := h₁.definerStep (.forward rfl rfl)
  have h₃ := h₂.definerStep (.forward rfl rfl)
  have h₄ := h₃.definerStep (.forward rfl rfl)
  refine ⟨_, executor, handed, pushed, rfl, rfl, h₄.definerStep (.forwarded rfl rfl),
    ⟨fun d => ?definer, fun e => ?executor⟩⟩
  case definer =>
    by_cases hd : d = 0
    · subst hd
      exact ⟨rfl, rfl, rfl, rfl, rfl, rfl⟩
    · show (Function.update State.init.definers 0 _ d).AtRest
      rw [Function.update_of_ne hd]
      exact ⟨rfl, rfl, rfl, rfl, rfl, rfl⟩
  case executor =>
    by_cases he : e = 0
    · subst he
      rwa [first_executor]
    · show (Function.update State.init.executors 0 _ e).AtRest
      rw [Function.update_of_ne he]
      exact ⟨rfl, _, rfl⟩

/-- NDB has kept its side to the end. -/
theorem admitted_threeRun_done (e : ℕ) :
    showingContract.Admitted .empty (firstTraces threeRun.1 e) := by
  have hadmitted := admitted_threeRun threeRun.1.length e
  rwa [List.take_length] at hadmitted

/-- The server has run two transactions and dropped a store, told the clients so,
and is at rest. -/
theorem answered_of_quiescent_crossing :
    (calledBack threeRun.1).length = 2
      ∧ ∃ s : State, Observes wireFormat oneEach s (firstTraces threeRun.1)
        ∧ s.asked wireFormat oneEach = threeTuples
        ∧ Multiset.Rel (IsReplyTo wireFormat) (s.asked wireFormat oneEach)
          (s.answers oneEach) := by
  refine ⟨rfl, ?_⟩
  obtain ⟨definer, executor, handed, pushed, hrequests, -, hwatched, hrest⟩ := watched_quiescent
  have hobserves := observes_requested.trans (hwatched.mono (fun _ _ => trivial))
  refine ⟨_, hobserves, ?_, answered_of_quiescent hobserves
    (fun e => (admitted_threeRun_done e).of_restrict)
    (fun client t ht => answerable_threeTuples t (mem_threeTuples_of_asked hrequests ht)) hrest⟩
  rw [asked_oneEach, ← decode_threeRequests, ← hrequests]
  rfl

end Pipeline

end VoloDB
