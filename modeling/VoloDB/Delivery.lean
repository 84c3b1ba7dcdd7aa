import VoloDB.Pipeline

/-!
# What the clients get

From the invariant of the pipeline: a tuple goes from the batch it was
decoded in to one executor and is taken there once, and a reply goes from
the executor that pushed it to the client whose request it answers.
`Delivers` says so of a state, and `delivers` of every state the server can
reach – whatever the threads do in whatever order, as long as a request is
an identity and one frame.
-/

namespace VoloDB

open Interaction FrameDecoder NDBMessageProcessor NDBMessageExecutor Stride

namespace Pipeline

variable (P : Protobuf) (T : Threads)

/-- **A batch is distributed**: there is one bucket for an executor, and
only for executors there are; the buckets hold the tuples of the batch,
each once; and a bucket holds those its executor was chosen for, in the
order of the batch. -/
structure Distributed (batch : Batch) : Prop where
  keys_nodup : ((batch.buckets P T).map Prod.fst).Nodup
  keys_lt : ∀ key ∈ (batch.buckets P T).map Prod.fst, key < T.noExecutorThreads
  perm : ((batch.buckets P T).flatMap Prod.snd).Perm (batch.tuples P)
  bucket_eq : ∀ e, bucketOf (batch.buckets P T) e
    = ((batch.tuples P).zipIdx.filter
        (fun p => batch.random p.2 % T.noExecutorThreads = e)).map Prod.fst

theorem distributed (batch : Batch) : Distributed P T batch where
  keys_nodup := keys_processForExecutor_nodup _ _ _
  keys_lt := keys_processForExecutor_lt _ _ _ T.executor_pos
  perm := flatMap_processForExecutor _ _ _
  bucket_eq := bucketOf_processForExecutor _ _ _

/-- An executor that is not working on a batch. -/
def ExecutorPhase.Idle (phase : ExecutorPhase) : Prop := ∃ pending, phase = .receiving [] pending

/-- A request of a client that a tuple was decoded from. -/
def State.Asked (s : State) (client : Bytes) (t : FrameMessagesTuple) : Prop :=
  ∃ d frame, (client, frame) ∈ (s.definers d).requests ∧ t ∈ decode P frame (some client)

/-- **The state of a server that delivers.** -/
structure Delivers (s : State) : Prop where
  /-- No definer has read past the end of a list. -/
  not_failed : ∀ d, (s.definers d).phase ≠ .failed
  /-- Every batch was distributed over the executors. -/
  distributed : ∀ d, ∀ batch ∈ (s.definers d).batches, Distributed P T batch
  /-- Every bucket of every batch is still to be sent or was handed over,
  and this once. -/
  handed : ∀ d, ((s.definers d).batches.flatMap (Batch.buckets P T) :
      Multiset (Nat × List FrameMessagesTuple)) = (s.definers d).phase.unsent + s.handedBy d
  /-- Every bucket that was handed to an executor waits or was received by
  it, and this once. -/
  received : ∀ e, (s.handedTo e : Multiset (List FrameMessagesTuple))
    = (s.executors e).received + (s.executors e).tasks
  /-- The tuples of the buckets received are taken in their order, and none
  remains when the executor has no batch to work on. -/
  taken : ∀ e, ∃ remaining,
    (s.executors e).received.flatten = (s.executors e).progress.taken ++ remaining ∧
      ((s.executors e).phase.Idle → remaining = [])
  /-- Every reply an executor has pushed answers the tuple it worked for,
  one it has taken, under its identifier, and carries the identity of the
  client whose request the tuple was decoded from. -/
  replies : ∀ e, ∀ p ∈ s.pushedBy e, ∃ t ∈ (s.executors e).progress.taken,
    p.1 = some t ∧ IsReplyTo P t p.2 ∧ s.Asked P p.2.1 t
  /-- Every reply pushed into a sink waits there, has been received from
  it, is still to be sent on, or has been sent on the worker socket, and
  this once and as it was. -/
  forwarded : ∀ d, ∃ collected, (s.definers d).phase.collected = flat collected
    ∧ (s.pushedTo T d : Multiset (Bytes × Bytes))
      = (s.definers d).sink + collected + (s.definers d).phase.leaving + (s.definers d).sent
  /-- What is delivered to a client is what an executor pushed for a tuple
  that the client asked for. -/
  delivered : ∀ d client, ∀ bytes ∈ (s.definers d).delivered client,
    ∃ e t, (some t, client, bytes) ∈ s.pushedBy e ∧ s.Asked P client t
      ∧ IsReplyTo P t (client, bytes)

variable {P T} {s : State}

/-! ## Where a tuple comes from -/

theorem mem_handedTo {e : Nat} {bucket : List FrameMessagesTuple} (h : bucket ∈ s.handedTo e) :
    ∃ d, (e, bucket) ∈ s.handedBy d := by
  obtain ⟨⟨d, e', bucket'⟩, hmem, heq⟩ := List.mem_filterMap.mp h
  by_cases he : e' = e
  · rw [if_pos he] at heq
    obtain rfl := Option.some.inj heq
    exact ⟨d, List.mem_filterMap.mpr ⟨_, hmem, by rw [if_pos rfl, he]⟩⟩
  · rw [if_neg he] at heq
    exact absurd heq (by simp)

/-- A bucket that was handed over is a bucket of a batch. -/
theorem Inv.mem_batches (h : Inv P T s) {d e : Nat} {bucket : List FrameMessagesTuple}
    (hb : (e, bucket) ∈ s.handedBy d) :
    ∃ batch ∈ (s.definers d).batches, (e, bucket) ∈ batch.buckets P T := by
  have hmem : (e, bucket) ∈ ((s.definers d).batches.flatMap (Batch.buckets P T) :
      Multiset (Nat × List FrameMessagesTuple)) := by
    rw [(h.definer d).buckets]
    exact Multiset.mem_add.mpr (Or.inr (Multiset.mem_coe.mpr hb))
  exact List.mem_flatMap.mp (Multiset.mem_coe.mp hmem)

/-- A tuple of a bucket was decoded from a request, under the identity of
the client that made it. -/
theorem Inv.asked_of_mem_bucket (h : Inv P T s) {d e : Nat}
    {bucket : List FrameMessagesTuple} (hb : (e, bucket) ∈ s.handedBy d)
    {t : FrameMessagesTuple} (ht : t ∈ bucket) : s.Asked P t.identifier t := by
  obtain ⟨batch, hbatch, hbucket⟩ := h.mem_batches hb
  have htuples : t ∈ batch.tuples P :=
    (distributed P T batch).perm.mem_iff.mp (List.mem_flatMap.mpr ⟨_, hbucket, ht⟩)
  obtain ⟨⟨client, frame⟩, hrequest, hdecode⟩ := List.mem_flatMap.mp htuples
  obtain ⟨received, -, hrequests⟩ := (h.definer d).requests
  have hid : t.identifier = client := identifier_of_mem_decode P hdecode
  refine ⟨d, frame, ?_, hid ▸ hdecode⟩
  rw [hid, hrequests, List.append_assoc]
  exact List.mem_append_left _ (List.mem_flatMap.mpr ⟨batch, hbatch, hrequest⟩)

/-- A tuple that was taken was decoded from a request. -/
theorem Inv.asked_of_taken (h : Inv P T s) {e : Nat} {t : FrameMessagesTuple}
    (ht : t ∈ (s.executors e).progress.taken) : s.Asked P t.identifier t := by
  obtain ⟨remaining, htaken, -⟩ := (h.executor e).taken
  have hmem : t ∈ (s.executors e).received.flatten :=
    htaken ▸ List.mem_append_left remaining ht
  obtain ⟨bucket, hbucket, htb⟩ := List.mem_flatten.mp hmem
  have hhanded : bucket ∈ (s.handedTo e : Multiset (List FrameMessagesTuple)) := by
    rw [(h.executor e).handed]
    exact Multiset.mem_add.mpr (Or.inl (Multiset.mem_coe.mpr hbucket))
  obtain ⟨d, hd⟩ := mem_handedTo (Multiset.mem_coe.mp hhanded)
  exact h.asked_of_mem_bucket hd htb

/-! ## Where a reply goes -/

theorem Inv.asked_of_pushed (h : Inv P T s) {e : Nat}
    {p : Option FrameMessagesTuple × Bytes × Bytes} (hp : p ∈ s.pushedBy e) :
    ∃ t ∈ (s.executors e).progress.taken,
      p.1 = some t ∧ IsReplyTo P t p.2 ∧ s.Asked P p.2.1 t := by
  obtain ⟨t, ht, hsubject, hto⟩ := (h.executor e).replies p hp
  exact ⟨t, ht, hsubject, hto, hto.1 ▸ h.asked_of_taken ht⟩

theorem mem_pushedTo {d : Nat} {reply : Bytes × Bytes} (h : reply ∈ s.pushedTo T d) :
    ∃ e subject, e % T.noDefinerThread = d ∧ (subject, reply) ∈ s.pushedBy e := by
  obtain ⟨⟨e, subject, reply'⟩, hmem, heq⟩ := List.mem_filterMap.mp h
  by_cases he : e % T.noDefinerThread = d
  · rw [if_pos he] at heq
    obtain rfl := Option.some.inj heq
    exact ⟨e, subject, he, List.mem_filterMap.mpr ⟨_, hmem, if_pos rfl⟩⟩
  · rw [if_neg he] at heq
    exact absurd heq (by simp)

/-- What a definer has sent on its worker socket was pushed into its
sink. -/
theorem Inv.mem_pushedTo_of_sent (h : Inv P T s) {d : Nat} {reply : Bytes × Bytes}
    (hreply : reply ∈ (s.definers d).sent) : reply ∈ s.pushedTo T d := by
  obtain ⟨collected, -, hpushed⟩ := (h.definer d).replies
  have hmem : reply ∈ (s.pushedTo T d : Multiset (Bytes × Bytes)) := by
    rw [hpushed]
    exact Multiset.mem_add.mpr (Or.inr (Multiset.mem_coe.mpr hreply))
  exact Multiset.mem_coe.mp hmem

theorem mem_sent_of_delivered {definer : Definer} {client bytes : Bytes}
    (h : bytes ∈ definer.delivered client) : (client, bytes) ∈ definer.sent := by
  obtain ⟨reply, hmem, heq⟩ := List.mem_filterMap.mp h
  by_cases hc : reply.1 = client
  · rw [if_pos hc] at heq
    rwa [← hc, ← Option.some.inj heq]
  · rw [if_neg hc] at heq
    exact absurd heq (by simp)

/-- The reply to a tuple is delivered to the client it came from. -/
theorem Inv.asked_of_delivered (h : Inv P T s) {d : Nat} {client bytes : Bytes}
    (hb : bytes ∈ (s.definers d).delivered client) :
    ∃ e t, (some t, client, bytes) ∈ s.pushedBy e ∧ s.Asked P client t
      ∧ IsReplyTo P t (client, bytes) := by
  obtain ⟨e, subject, -, hpushed⟩ :=
    mem_pushedTo (h.mem_pushedTo_of_sent (mem_sent_of_delivered hb))
  obtain ⟨t, -, hsubject, hto, hasked⟩ := h.asked_of_pushed hpushed
  obtain rfl : subject = some t := hsubject
  exact ⟨e, t, hpushed, hasked, hto⟩

/-- Nothing remains of the batches of an idle executor. -/
theorem Remaining.eq_nil_of_idle {progress : Progress} {remaining : List FrameMessagesTuple}
    {phase : ExecutorPhase} (h : Remaining P progress phase remaining) (hidle : phase.Idle) :
    remaining = [] := by
  obtain ⟨pending, rfl⟩ := hidle
  cases h with
  | receiving hpending => rfl

/-- **The server delivers.** -/
theorem delivers (h : Reachable P T s) : Delivers P T s where
  not_failed d := (h.inv.definer d).not_failed
  distributed _ batch _ := Pipeline.distributed P T batch
  handed d := (h.inv.definer d).buckets
  received e := (h.inv.executor e).handed
  taken e := by
    obtain ⟨remaining, htaken, hremaining⟩ := (h.inv.executor e).taken
    exact ⟨remaining, htaken, hremaining.eq_nil_of_idle⟩
  replies _ _ hreply := h.inv.asked_of_pushed hreply
  forwarded d := (h.inv.definer d).replies
  delivered _ _ _ hb := h.inv.asked_of_delivered hb

/-! ## One request -/

/-- One definer and one executor. -/
def oneEach : Threads := ⟨1, 1, Nat.one_pos, Nat.one_pos⟩

/-- The state in which only the first definer and the first executor have
done something. -/
def first (definer : Definer) (executor : Executor)
    (handed : List (Nat × Nat × List FrameMessagesTuple))
    (pushed : List (Nat × Option FrameMessagesTuple × Bytes × Bytes)) : State where
  definers := Function.update State.init.definers 0 definer
  executors := Function.update State.init.executors 0 executor
  handed := handed
  pushed := pushed

theorem first_init :
    first (State.init.definers 0) (State.init.executors 0) [] [] = State.init := by
  unfold first
  rw [Function.update_eq_self, Function.update_eq_self]
  rfl

section First

variable {definer definer' : Definer} {executor executor' : Executor}
  {handed : List (Nat × Nat × List FrameMessagesTuple)}
  {pushed : List (Nat × Option FrameMessagesTuple × Bytes × Bytes)}

/-- The actors there are with one thread of each kind. -/
def Actor.isFirst : Actor → Prop
  | .client => True
  | .definer d => d = 0
  | .executor e => e = 0

/-- The states these actors reach. -/
abbrev Reached (P : Protobuf) (T : Threads) (s : State) : Prop := ReachableBy P T Actor.isFirst s

theorem Reached.definerStep (h : Reached P T (first definer executor handed pushed))
    {actor : Actor} (hstep : Step P T (first definer executor handed pushed) actor
      ((first definer executor handed pushed).setDefiner 0 definer'))
    (ha : actor.isFirst) : Reached P T (first definer' executor handed pushed) := by
  have heq : (first definer executor handed pushed).setDefiner 0 definer'
      = first definer' executor handed pushed := by
    unfold first State.setDefiner
    rw [Function.update_idem]
  exact heq ▸ h.tail ⟨actor, ha, hstep⟩

theorem Reached.executorStep (h : Reached P T (first definer executor handed pushed))
    (hstep : Step P T (first definer executor handed pushed) (.executor 0)
      ((first definer executor handed pushed).setExecutor 0 executor')) :
    Reached P T (first definer executor' handed pushed) := by
  have heq : (first definer executor handed pushed).setExecutor 0 executor'
      = first definer executor' handed pushed := by
    unfold first State.setExecutor
    rw [Function.update_idem]
  exact heq ▸ h.tail ⟨.executor 0, rfl, hstep⟩

theorem Reached.handOverStep (h : Reached P T (first definer executor handed pushed))
    {bucket : List FrameMessagesTuple}
    (hstep : Step P T (first definer executor handed pushed) (.definer 0)
      ((first definer executor handed pushed).handOver 0 definer' 0 executor' bucket)) :
    Reached P T (first definer' executor' (handed ++ [(0, 0, bucket)]) pushed) := by
  have heq : (first definer executor handed pushed).handOver 0 definer' 0 executor' bucket
      = first definer' executor' (handed ++ [(0, 0, bucket)]) pushed := by
    unfold first State.handOver
    rw [Function.update_idem, Function.update_idem]
  exact heq ▸ h.tail ⟨.definer 0, rfl, hstep⟩

theorem Reached.pushStep (h : Reached P T (first definer executor handed pushed))
    {reply : Bytes × Bytes}
    (hstep : Step P T (first definer executor handed pushed) (.executor 0)
      ((first definer executor handed pushed).push 0 definer' 0 executor' reply)) :
    Reached P T (first definer' executor' handed
      (pushed ++ [(0, executor'.progress.subject, reply)])) := by
  have heq : (first definer executor handed pushed).push 0 definer' 0 executor' reply
      = first definer' executor' handed
        (pushed ++ [(0, executor'.progress.subject, reply)]) := by
    unfold first State.push
    rw [Function.update_idem, Function.update_idem]
  exact heq ▸ h.tail ⟨.executor 0, rfl, hstep⟩

end First

/-- A client that drops a store. -/
def dropStoreRequest : Bytes × Bytes :=
  (ascii "a", wireFormat.frame.serialize
    ⟨none, [⟨.dropStore, wireFormat.dropStore.serialize ⟨⟨ascii "t"⟩⟩, some (ascii "x")⟩]⟩)

/-- What the request is decoded to. -/
def dropStoreTuple : FrameMessagesTuple :=
  ⟨ascii "x", ascii "a", [.dropStore ⟨⟨ascii "t"⟩⟩]⟩

/-- The answer. -/
def dropStoreReply : Bytes × Bytes :=
  (ascii "a", replyBytes wireFormat (makeResult (ascii "x")))

/-- The executor is about to run the tuple. -/
def dropStoreRunning : State :=
  first ⟨[], 0, .assigning 0, [dropStoreRequest], [⟨[dropStoreRequest], fun _ => 0⟩], []⟩
    ⟨0, .running (executeBatch wireFormat [[dropStoreTuple]] []), [[dropStoreTuple]],
      Progress.init⟩ [(0, 0, [dropStoreTuple])] []

theorem reached_dropStoreRunning : Reached wireFormat oneEach dropStoreRunning := by
  let R := dropStoreRequest
  let t := dropStoreTuple
  let B : Batch := ⟨[R], fun _ => 0⟩
  let E : Executor := ⟨0, .receiving [] [], [], Progress.init⟩
  have hdecode : decodeMessages wireFormat [R.1, R.2] true = some [t] := by decide
  have h₀ : Reached wireFormat oneEach (first ⟨[], 0, .receiving [], [], [], []⟩ E [] []) :=
    first_init ▸ .refl
  have h₁ := h₀.definerStep (.request (d := 0) Nat.one_pos rfl R) trivial
  have h₂ := h₁.definerStep (.receiveRequest (d := 0) rfl rfl rfl) rfl
  have h₃ : Reached wireFormat oneEach
      (first ⟨[], 0, .assigning ((0, [t]) ::ₘ 0), [R], [B], []⟩ E [] []) :=
    h₂.definerStep (.decode (d := 0) rfl rfl (List.cons_ne_nil _ _) rfl rfl hdecode (fun _ => 0))
      rfl
  have h₄ := h₃.handOverStep (.assign (d := 0) (e := 0) rfl rfl rfl)
  have h₅ := h₄.executorStep (.receiveTask (e := 0) rfl rfl (by decide) (rfl : _ = [t] ::ₘ 0))
  exact h₅.executorStep (.execute (e := 0) rfl rfl (List.cons_ne_nil _ _) (.inl rfl))

/-- The executor runs the tuple – the query, the cache, the reply – and the
definer takes the reply from its sink and sends it on. -/
theorem reached_dropStore :
    ∃ s, Reached wireFormat oneEach s
      ∧ (s.definers 0).delivered (ascii "a") = [dropStoreReply.2] := by
  have h₆ : Reached wireFormat oneEach (first _ _ _ _) := reached_dropStoreRunning
  have h₇ := h₆.executorStep
    (.call (e := 0) (c := .take dropStoreTuple) rfl rfl (fun _ _ => Call.noConfusion) ())
  have h₈ := h₇.executorStep
    (.call (e := 0) (c := .query (ascii "DROP TABLE t")) rfl rfl (fun _ _ => Call.noConfusion)
      none)
  have h₉ := h₈.executorStep
    (.call (e := 0) (c := .cacheErase (ascii "t")) rfl rfl (fun _ _ => Call.noConfusion) ())
  have h₁₀ := h₉.pushStep (.send (e := 0) rfl rfl rfl)
  have h₁₁ := h₁₀.definerStep (.assigned (d := 0) rfl rfl) rfl
  have h₁₂ := h₁₁.definerStep (.receiveReply (d := 0) rfl rfl
    (rfl : _ = dropStoreReply ::ₘ 0)) rfl
  have h₁₃ := h₁₂.definerStep (.collected (d := 0) rfl rfl rfl rfl) rfl
  have h₁₄ := h₁₃.definerStep (.forward (d := 0) rfl rfl) rfl
  exact ⟨_, h₁₄, rfl⟩

/-- The server has dropped the store and told the client so, and
delivers. -/
theorem delivers_dropStore :
    ∃ s, (s.definers 0).delivered (ascii "a") = [dropStoreReply.2]
      ∧ Delivers wireFormat oneEach s := by
  obtain ⟨s, hs, hdelivered⟩ := reached_dropStore
  exact ⟨s, hdelivered, delivers (ReachableBy.reachable hs)⟩

end Pipeline

end VoloDB
