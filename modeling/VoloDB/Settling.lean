import VoloDB.Deployment

/-!
# Clients and server come to rest

Nothing is stuck for good between clients and server. As long as no worker
has left its loop, everything can come to rest from every state, without a
further call of `execute`: the workers send what is in their sinks, the
requests arrive, the server comes to rest, the replies are routed, and the
workers hand them over (`Follow.quiesces`).

For the server to come to rest, it must have been asked what can be answered.
So a frame is followed first to where it is decoded: what a client has asked
for is what the server is asked.
-/

namespace VoloDB

open Interaction FrameDecoder NDBMessageExecutor

namespace Deployment

variable {P : Protobuf} {T : Pipeline.Threads} {C : Clients} {s s' : State P} {k : Nat}

/-! ## What is asked for -/

/-- **The transactions of a request**, with their identifiers. -/
def Request.transactions (request : Request P) : List (Bytes × List Message) :=
  if request.runAtomic then [(request.uuids.headD [], request.operations)]
  else List.zipWith (fun m u => (u, [m])) request.operations request.uuids

/-- **A request that can be answered**: there is no operation on a database in
it, and each of its transactions is answered once. -/
def Request.Answerable (request : Request P) : Prop :=
  (∀ m ∈ request.operations, ClientExecutor.isDatabaseOperation m = false)
    ∧ ∀ t ∈ request.transactions, VoloDB.Answerable t.2

/-- A request as the server decodes it. -/
def Request.tuples (request : Request P) (identity : Bytes) : List FrameMessagesTuple :=
  request.transactions.map (fun t => ⟨t.1, identity, t.2⟩)

theorem Request.tuples_eq (request : Request P) (identity : Bytes) :
    request.tuples identity = ClientExecutor.expectedTuples request.operations request.uuids
      request.runAtomic identity := by
  unfold Request.tuples Request.transactions ClientExecutor.expectedTuples
  cases request.runAtomic with
  | true => rfl
  | false =>
    show (List.zipWith _ _ _).map _ = List.zipWith _ _ _
    rw [List.map_zipWith]

/-- The guard has let it pass. -/
theorem Request.guardError_eq (request : Request P) :
    ClientExecutor.guardError request.operations request.uuids request.runAtomic = none := by
  have h := request.execute_eq
  unfold ClientExecutor.execute at h
  cases hguard : ClientExecutor.guardError request.operations request.uuids request.runAtomic with
  | none => rfl
  | some what =>
    rw [hguard] at h
    exact absurd h (by simp)

/-- **A request arrives as it was meant.** -/
theorem Request.decode_eq (request : Request P)
    (h : ∀ m ∈ request.operations, ClientExecutor.isDatabaseOperation m = false)
    (identity : Bytes) : decode P request.bytes (some identity) = request.tuples identity := by
  have hguard := request.guardError_eq
  rw [request.tuples_eq]
  obtain ⟨operations, uuids, runAtomic, bytes, hexecute⟩ := request
  have harrives : ClientExecutor.Arrives P operations uuids runAtomic identity := by
    cases uuids with
    | nil =>
      unfold ClientExecutor.execute at hexecute
      rw [hguard] at hexecute
      exact absurd hexecute (by simp)
    | cons uuid uuids =>
      by_cases haccepted : ∀ m ∈ operations, ClientExecutor.Accepted m
      · cases runAtomic with
        | true => exact (ClientExecutor.arrives_atomic_iff P uuid uuids identity haccepted).mpr h
        | false =>
          exact (ClientExecutor.arrives_plain_iff P identity haccepted
            (ClientExecutor.length_eq_of_guardError hguard)).mpr h
      · exact ClientExecutor.arrives_of_not_accepted P identity hguard
          (by simpa [not_forall] using haccepted)
  unfold ClientExecutor.Arrives at harrives
  split at harrives
  · obtain ⟨bytes', hbytes, hdecode⟩ := harrives
    obtain rfl := Sent.bytes.inj (hexecute.symm.trans hbytes)
    exact hdecode
  · obtain ⟨what, hwhat⟩ := harrives
    exact absurd (hexecute.symm.trans hwhat) (by simp)

/-! ## The server's part -/

/-- What has arrived at the server was sent. -/
theorem Inv.sent_of_asked (h : Inv T C s) {client : Bytes} {t : FrameMessagesTuple}
    (hasked : s.server.Asked P client t) :
    ∃ k < C.noConnections, ∃ request ∈ (s.connections k).requests,
      client = C.identity k ∧ t ∈ decode P request.bytes (some client) := by
  obtain ⟨d, frame, hrequest, ht⟩ := hasked
  have hd : d < T.noDefinerThread := by
    by_contra hd
    rw [h.observes.reachable.requests_eq_nil (Nat.not_lt.mp hd)] at hrequest
    exact absurd hrequest List.not_mem_nil
  have harrived : (client, frame) ∈ s.sent C := by
    rw [h.requests]
    refine Multiset.mem_add.mpr (Or.inr (Multiset.mem_sum.mpr ⟨d, Finset.mem_range.mpr hd, ?_⟩))
    exact Multiset.mem_coe.mpr hrequest
  obtain ⟨k, hk, hsent⟩ := Multiset.mem_sum.mp harrived
  obtain ⟨bytes, hbytes, heq⟩ := List.mem_map.mp (Multiset.mem_coe.mp hsent)
  obtain ⟨rfl, rfl⟩ := Prod.mk.inj heq
  have hmem : bytes ∈ ((s.connections k).requests.map Request.bytes : Multiset Bytes) := by
    rw [(h.connection k).requests, add_assoc]
    exact Multiset.mem_add.mpr (Or.inl (Multiset.mem_coe.mpr hbytes))
  obtain ⟨request, hgiven, rfl⟩ := List.mem_map.mp (Multiset.mem_coe.mp hmem)
  exact ⟨k, Finset.mem_range.mp hk, request, hgiven, rfl, ht⟩

/-- **The clients have sent only what can be answered.** -/
def State.Answerable (s : State P) : Prop :=
  ∀ k, ∀ request ∈ (s.connections k).requests, request.Answerable

/-- The server has then been asked only what can be answered. -/
theorem Inv.answerable (h : Inv T C s) (hanswerable : s.Answerable) {client : Bytes}
    {t : FrameMessagesTuple} (hasked : s.server.Asked P client t) :
    VoloDB.Answerable t.messages := by
  obtain ⟨k, -, request, hrequest, -, ht⟩ := h.sent_of_asked hasked
  obtain ⟨hdatabase, htransactions⟩ := hanswerable k request hrequest
  rw [request.decode_eq hdatabase] at ht
  obtain ⟨transaction, htransaction, rfl⟩ := List.mem_map.mp ht
  exact htransactions transaction htransaction

/-- The server is then as it is when it is regarded by itself. -/
theorem Inv.regular {p : Ledger → (c : Call) → Answer c → Prop} (h : Inv T C s)
    (hndb : ∀ e, (completingContract.restrict p).Admitted .empty (s.traces e))
    (hanswerable : s.Answerable) : Pipeline.Regular P T p (s.server, s.traces) :=
  ⟨h.observes, hndb, fun _ _ hasked => h.answerable hanswerable hasked⟩

/-! ## At rest -/

/-- **A connection at rest**: nothing waits on it, and its worker holds
nothing. -/
structure Connection.AtRest (connection : Connection P) : Prop where
  sink : connection.sink = []
  inbox : connection.inbox = []
  received : connection.phase.received = []
  unsent : connection.phase.unsent = []

/-- **Network and server at rest.** -/
structure Quiescent (s : State P) : Prop where
  requesting : s.requesting = 0
  returning : s.returning = 0
  server : Pipeline.Quiescent s.server

/-! ## A worker works on -/

/-- Steps that no application asks for. -/
def Actor.IsInternal (actor : Actor) : Prop := actor ≠ .application

variable (P T C) in
/-- Steps of one worker. -/
abbrev WorkerRun (k : Nat) : State P → State P → Prop :=
  Relation.ReflTransGen (fun s s' => Step P T C s (.worker k) s')

/-- **What a worker leaves as it was.** -/
structure Untouched (k : Nat) (s s' : State P) : Prop where
  server : s'.server = s.server
  traces : s'.traces = s.traces
  returning : s'.returning = s.returning
  others : ∀ j, j ≠ k → s'.connections j = s.connections j

@[simp] theorem connections_setConnection (s : State P) (k : Nat) (connection : Connection P) :
    (s.setConnection k connection).connections k = connection :=
  Function.update_self (β := fun _ => Connection P) k connection s.connections

@[simp] theorem connections_send (s : State P) (k : Nat) (connection : Connection P)
    (request : Bytes × Bytes) : (s.send k connection request).connections k = connection :=
  Function.update_self (β := fun _ => Connection P) k connection s.connections

theorem Step.untouched (h : Step P T C s (.worker k) s') : Untouched k s s' := by
  cases h with
  | forward => exact ⟨rfl, rfl, rfl, fun _ hj => Function.update_of_ne hj _ _⟩
  | _ => exact ⟨rfl, rfl, rfl, fun _ hj => Function.update_of_ne hj _ _⟩

theorem WorkerRun.untouched (h : WorkerRun P T C k s s') : Untouched k s s' := by
  induction h with
  | refl => exact ⟨rfl, rfl, rfl, fun _ _ => rfl⟩
  | tail _ hstep ih =>
    have hlast := hstep.untouched
    exact ⟨hlast.server.trans ih.server, hlast.traces.trans ih.traces,
      hlast.returning.trans ih.returning, fun j hj => (hlast.others j hj).trans (ih.others j hj)⟩

theorem WorkerRun.follow (h : WorkerRun P T C k s s') :
    Follow P T C Actor.IsInternal s s' :=
  Relation.ReflTransGen.mono (fun _ _ hstep => ⟨.worker k, Actor.noConfusion, hstep⟩) _ _ h

/-- It drains its socket. -/
theorem WorkerRun.receiveAll (hworker : C.HasWorker k) {messages : List Bytes}
    (hphase : (s.connections k).phase = .receiving messages) :
    ∃ s' messages', WorkerRun P T C k s s' ∧ (s'.connections k).phase = .receiving messages'
      ∧ (s'.connections k).inbox = [] := by
  generalize hinbox : (s.connections k).inbox = inbox
  induction inbox generalizing s messages with
  | nil => exact ⟨s, messages, .refl, hphase, hinbox⟩
  | cons message inbox ih =>
    obtain ⟨s₁, hstep, hs₁⟩ : ∃ s₁, Step P T C s (.worker k) s₁ ∧ s₁.connections k
        = { s.connections k with
          inbox := inbox
          phase := .receiving (messages ++ [message]) } :=
      ⟨_, .receive rfl hworker hphase hinbox, connections_setConnection _ _ _⟩
    obtain ⟨s', messages', hrun, hphase', hnil⟩ := ih (by rw [hs₁]) (by rw [hs₁])
    exact ⟨s', messages', hrun.head hstep, hphase', hnil⟩

/-- It drains its sink. -/
theorem WorkerRun.drainAll (hworker : C.HasWorker k) {messages : List Bytes}
    (hphase : (s.connections k).phase = .draining messages) :
    ∃ s' messages', WorkerRun P T C k s s' ∧ (s'.connections k).phase = .draining messages'
      ∧ (s'.connections k).sink = [] ∧ (s'.connections k).inbox = (s.connections k).inbox := by
  generalize hsink : (s.connections k).sink = sink
  induction sink generalizing s messages with
  | nil => exact ⟨s, messages, .refl, hphase, hsink, rfl⟩
  | cons message sink ih =>
    obtain ⟨s₁, hstep, hs₁⟩ : ∃ s₁, Step P T C s (.worker k) s₁ ∧ s₁.connections k
        = { s.connections k with
          sink := sink
          phase := .draining (messages ++ [message]) } :=
      ⟨_, .drain rfl hworker hphase hsink, connections_setConnection _ _ _⟩
    obtain ⟨s', messages', hrun, hphase', hnil, hinbox⟩ := ih (by rw [hs₁]) (by rw [hs₁])
    rw [hs₁] at hinbox
    exact ⟨s', messages', hrun.head hstep, hphase', hnil, hinbox⟩

/-- It sends what was in its sink, and begins its next turn. -/
theorem WorkerRun.forwardAll (hworker : C.HasWorker k) {messages : List Bytes}
    (hphase : (s.connections k).phase = .forwarding messages) :
    ∃ s', WorkerRun P T C k s s' ∧ (s'.connections k).phase = .receiving []
      ∧ (s'.connections k).sink = (s.connections k).sink
      ∧ (s'.connections k).inbox = (s.connections k).inbox := by
  induction messages generalizing s with
  | nil =>
    refine ⟨_, .single (.forwarded rfl hworker hphase), ?_, ?_, ?_⟩ <;>
      rw [connections_setConnection]
  | cons message messages ih =>
    obtain ⟨s₁, hstep, hs₁⟩ : ∃ s₁, Step P T C s (.worker k) s₁ ∧ s₁.connections k
        = { s.connections k with
          phase := .forwarding messages
          sent := (s.connections k).sent ++ [message] } :=
      ⟨_, .forward rfl hworker hphase, connections_send _ _ _ _⟩
    obtain ⟨s', hrun, hphase', hsink, hinbox⟩ := ih (by rw [hs₁])
    rw [hs₁] at hsink hinbox
    exact ⟨s', hrun.head hstep, hphase', hsink, hinbox⟩

/-- From its sink, it goes on to its next turn. -/
theorem WorkerRun.sendAll (hworker : C.HasWorker k) {messages : List Bytes}
    (hphase : (s.connections k).phase = .draining messages) :
    ∃ s', WorkerRun P T C k s s' ∧ (s'.connections k).phase = .receiving []
      ∧ (s'.connections k).sink = [] ∧ (s'.connections k).inbox = (s.connections k).inbox := by
  obtain ⟨s₁, messages', hrun₁, hphase₁, hsink₁, hinbox₁⟩ := drainAll hworker hphase
  obtain ⟨s₂, hstep, hs₂⟩ : ∃ s₂, Step P T C s₁ (.worker k) s₂ ∧ s₂.connections k
      = { s₁.connections k with phase := .forwarding messages' } :=
    ⟨_, .drained rfl hworker hphase₁ hsink₁, connections_setConnection _ _ _⟩
  obtain ⟨s', hrun₃, hphase₃, hsink₃, hinbox₃⟩ := forwardAll hworker (s := s₂) (by rw [hs₂])
  rw [hs₂] at hsink₃ hinbox₃
  exact ⟨s', (hrun₁.tail hstep).trans hrun₃, hphase₃, hsink₃.trans hsink₁, hinbox₃.trans hinbox₁⟩

/-- **A whole turn.** -/
theorem WorkerRun.turn (hinv : Inv T C s) (hworker : C.HasWorker k) {messages : List Bytes}
    (hphase : (s.connections k).phase = .receiving messages) :
    ∃ s', WorkerRun P T C k s s' ∧ (s'.connections k).phase = .receiving []
      ∧ (s'.connections k).sink = [] ∧ (s'.connections k).inbox = [] := by
  obtain ⟨s₁, messages', hrun₁, hphase₁, hinbox₁⟩ := receiveAll (T := T) hworker hphase
  have hinv₁ := Follow.inv (WorkerRun.follow hrun₁) hinv
  obtain ⟨calls, hcalls⟩ :=
    Option.ne_none_iff_exists'.mp ((hinv₁.connection k).handOver_ne_none hphase₁)
  obtain ⟨s₂, hstep, hs₂⟩ : ∃ s₂, Step P T C s₁ (.worker k) s₂ ∧ s₂.connections k
      = { s₁.connections k with
        phase := .draining []
        responses := (s₁.connections k).responses ++ calls } :=
    ⟨_, .handOver rfl hworker hphase₁ hinbox₁ hcalls, connections_setConnection _ _ _⟩
  obtain ⟨s', hrun₃, hphase₃, hsink₃, hinbox₃⟩ := sendAll (T := T) hworker (s := s₂) (by rw [hs₂])
  rw [hs₂] at hinbox₃
  exact ⟨s', (hrun₁.tail hstep).trans hrun₃, hphase₃, hsink₃, hinbox₃.trans hinbox₁⟩

/-- A worker that has left its loop. -/
def WorkerPhase.HasLeft (phase : WorkerPhase) : Prop :=
  ∃ received unsent, phase = .left received unsent

/-- **A worker comes to rest**, unless it has left its loop. -/
theorem WorkerRun.atRest (hinv : Inv T C s) (hworker : C.HasWorker k)
    (hlives : ¬ (s.connections k).phase.HasLeft) :
    ∃ s', WorkerRun P T C k s s' ∧ (s'.connections k).AtRest
      ∧ ¬ (s'.connections k).phase.HasLeft := by
  have hreceiving : ∃ s₁ messages, WorkerRun P T C k s s₁
      ∧ (s₁.connections k).phase = .receiving messages := by
    cases hphase : (s.connections k).phase with
    | receiving messages => exact ⟨s, messages, .refl, hphase⟩
    | draining messages =>
      obtain ⟨s₁, hrun, hphase₁, -⟩ := sendAll (T := T) hworker hphase
      exact ⟨s₁, [], hrun, hphase₁⟩
    | forwarding messages =>
      obtain ⟨s₁, hrun, hphase₁, -⟩ := forwardAll (T := T) hworker hphase
      exact ⟨s₁, [], hrun, hphase₁⟩
    | left received unsent => exact absurd ⟨received, unsent, hphase⟩ hlives
    | failed => exact absurd hphase (hinv.connection k).not_failed
  obtain ⟨s₁, messages, hrun₁, hphase₁⟩ := hreceiving
  obtain ⟨s', hrun₂, hphase', hsink, hinbox⟩ :=
    turn (Follow.inv (WorkerRun.follow hrun₁) hinv) hworker hphase₁
  refine ⟨s', hrun₁.trans hrun₂, ⟨hsink, hinbox, ?_, ?_⟩, ?_⟩
  · rw [hphase']
    rfl
  · rw [hphase']
    rfl
  · rw [hphase']
    exact fun ⟨_, _, h⟩ => nomatch h

/-! ## The network -/

/-- Everything arrives. -/
theorem Follow.arriveAll (s : State P) :
    ∃ s', Follow P T C Actor.IsInternal s s' ∧ s'.requesting = 0
      ∧ s'.connections = s.connections ∧ s'.traces = s.traces := by
  generalize hrequesting : s.requesting = requesting
  induction requesting using Multiset.induction_on generalizing s with
  | empty => exact ⟨s, .refl, hrequesting, rfl, rfl⟩
  | cons request requesting ih =>
    obtain ⟨s', hrun, hnone, hconnections, htraces⟩ := ih { s with
      requesting := requesting
      server := s.server.setDefiner 0 { s.server.definers 0 with
        worker := (s.server.definers 0).worker ++ [request]
        requests := (s.server.definers 0).requests ++ [request] } } rfl
    have hstep : Step P T C s .network _ := .arrive T.definer_pos rfl hrequesting
    exact ⟨s', hrun.head ⟨.network, Actor.noConfusion, hstep⟩, hnone, hconnections, htraces⟩

/-- The server works on. -/
theorem Follow.serveAll {x : Pipeline.State × (Nat → Trace)}
    (h : Pipeline.Follow P T Pipeline.Actor.IsThread (s.server, s.traces) x) :
    ∃ returning, Follow P T C Actor.IsInternal s
      { s with server := x.1, traces := x.2, returning := returning } := by
  induction h with
  | refl => exact ⟨s.returning, .refl⟩
  | tail _ hstep ih =>
    obtain ⟨actor, hactor, hobserved⟩ := hstep
    obtain ⟨returning, hrun⟩ := ih
    obtain ⟨replies, hreplies⟩ := Multiset.le_iff_exists_add.mp hobserved.step.answers_le
    exact ⟨returning + replies,
      hrun.tail ⟨.server, Actor.noConfusion, .serve hactor hobserved hreplies⟩⟩

/-- What the server sends can be routed. -/
theorem Inv.identity_of_answer (h : Inv T C s) {reply : Bytes × Bytes}
    (hreply : reply ∈ s.server.answers T) : ∃ k < C.noConnections, reply.1 = C.identity k := by
  obtain ⟨t, result, hasked, -⟩ := h.observes.reachable.reply_of_answer hreply
  obtain ⟨k, hk, request, -, hclient, -⟩ := h.sent_of_asked hasked
  exact ⟨k, hk, hclient⟩

/-- What a reply leaves of a connection that it comes to. -/
structure Connection.Unread (connection connection' : Connection P) : Prop where
  phase : connection'.phase = connection.phase
  sink : connection'.sink = connection.sink

/-- Everything is routed. -/
theorem Follow.routeAll (hinv : Inv T C s) :
    ∃ s', Follow P T C Actor.IsInternal s s' ∧ s'.returning = 0
      ∧ s'.requesting = s.requesting ∧ s'.server = s.server ∧ s'.traces = s.traces
      ∧ ∀ k, (s.connections k).Unread (s'.connections k) := by
  generalize hreturning : s.returning = returning
  induction returning using Multiset.induction_on generalizing s with
  | empty => exact ⟨s, .refl, hreturning, rfl, rfl, rfl, fun _ => ⟨rfl, rfl⟩⟩
  | cons reply returning ih =>
    have hanswer : reply ∈ s.server.answers T := by
      rw [hinv.replies, hreturning]
      exact Multiset.mem_add.mpr (Or.inl (Multiset.mem_cons_self _ _))
    obtain ⟨k, hk, hidentity⟩ := hinv.identity_of_answer hanswer
    obtain ⟨identity, bytes⟩ := reply
    obtain rfl : identity = C.identity k := hidentity
    have hstep : Step P T C s .network _ := .route hk rfl hreturning
    have hunread := (Function.forall_update_iff s.connections
      (b := { s.connections k with
        inbox := (s.connections k).inbox ++ [bytes]
        received := (s.connections k).received ++ [bytes] })
      (fun j connection => (s.connections j).Unread connection)).mpr
      ⟨⟨rfl, rfl⟩, fun _ _ => ⟨rfl, rfl⟩⟩
    obtain ⟨s', hrun, hnone, hrequesting, hserver, htraces, hconnections⟩ :=
      ih (hinv.step hstep) rfl
    refine ⟨s', hrun.head ⟨.network, Actor.noConfusion, hstep⟩, hnone, hrequesting, hserver,
      htraces, fun j => ⟨?_, ?_⟩⟩
    · exact (hconnections j).phase.trans (hunread j).phase
    · exact (hconnections j).sink.trans (hunread j).sink

/-! ## Everything together -/

/-- Only applications ask for something. -/
theorem Step.requests_eq {actor : Actor} (h : Step P T C s actor s') (hactor : actor.IsInternal)
    (k : Nat) : (s'.connections k).requests = (s.connections k).requests := by
  have hset : ∀ {j : Nat} {connection connection' : Connection P}, s.connections j = connection →
      connection'.requests = connection.requests →
      (Function.update s.connections j connection' k).requests = (s.connections k).requests := by
    rintro j _ connection' rfl heq
    by_cases hk : k = j
    · subst hk
      rwa [Function.update_self]
    · rw [Function.update_of_ne hk]
  cases h with
  | execute | executeDirectly => exact absurd rfl hactor
  | receive h | handOver h | handOverFails h | drain h | drained h | forward h | forwarded h
  | leave h => exact hset h rfl
  | arrive | serve => rfl
  | route hk h => exact hset h rfl

theorem Follow.requests_eq (h : Follow P T C Actor.IsInternal s s') (k : Nat) :
    (s'.connections k).requests = (s.connections k).requests := by
  induction h with
  | refl => rfl
  | tail _ hstep ih =>
    obtain ⟨actor, hactor, hstep⟩ := hstep
    exact (hstep.requests_eq hactor k).trans ih

/-- No worker has left its loop. -/
def State.Running (C : Clients) (s : State P) : Prop :=
  ∀ k, C.HasWorker k → ¬ (s.connections k).phase.HasLeft

/-- **What all workers leave as it was.** -/
structure Kept (C : Clients) (s s' : State P) : Prop where
  server : s'.server = s.server
  traces : s'.traces = s.traces
  returning : s'.returning = s.returning
  direct : ∀ k, ¬ C.HasWorker k → s'.connections k = s.connections k

/-- **All workers come to rest.** -/
theorem Follow.workers (hinv : Inv T C s) (hrunning : s.Running C) :
    ∃ s', Follow P T C Actor.IsInternal s s' ∧ Kept C s s' ∧ s'.Running C
      ∧ ∀ k, C.HasWorker k → (s'.connections k).AtRest := by
  obtain ⟨s', hrun, ⟨-, hrunning', hkept⟩, hrest⟩ := exists_forall_lt
    (I := fun x => Inv T C x ∧ x.Running C ∧ Kept C s x)
    (G := fun k x => C.HasWorker k → (x.connections k).AtRest) (fun x k hx => by
      obtain ⟨hinv, hrunning, hkept⟩ := hx
      by_cases hworker : C.HasWorker k
      · obtain ⟨y, hrun, hrest, hlives⟩ := WorkerRun.atRest hinv hworker (hrunning k hworker)
        have huntouched := hrun.untouched
        refine ⟨y, hrun.follow, ⟨hrun.follow.inv hinv, fun j hj => ?_, ?_⟩, fun _ => hrest,
          fun j hne hj hworker' => huntouched.others j hne ▸ hj hworker'⟩
        · by_cases heq : j = k
          · exact heq ▸ hlives
          · exact huntouched.others j heq ▸ hrunning j hj
        · refine ⟨huntouched.server.trans hkept.server, huntouched.traces.trans hkept.traces,
            huntouched.returning.trans hkept.returning, fun j hj => ?_⟩
          have hne : j ≠ k := fun heq => hj (heq ▸ hworker)
          exact (huntouched.others j hne).trans (hkept.direct j hj)
      · exact ⟨x, .refl, ⟨hinv, hrunning, hkept⟩, fun h => absurd h hworker,
          fun _ _ h => h⟩)
    ⟨hinv, hrunning, rfl, rfl, rfl, fun _ _ => rfl⟩ C.noConnections
  exact ⟨s', hrun, hkept, hrunning', fun k hk => hrest k hk.1 hk⟩

/-- A worker that holds nothing back has sent all it was given. -/
theorem Connection.Inv.sent_eq {connection : Connection P} (h : connection.Inv)
    (hunsent : connection.phase.unsent = []) (hsink : connection.sink = []) :
    (connection.sent : Multiset Bytes) = connection.requests.map Request.bytes := by
  rw [h.requests, hunsent, hsink, Multiset.coe_nil, add_zero, add_zero]

/-- Workers that have nothing to send send nothing. -/
theorem Kept.sent_eq (hkept : Kept C s s') (hinv : Inv T C s) (hinv' : Inv T C s')
    (hrequests : ∀ k, (s'.connections k).requests = (s.connections k).requests)
    (hsettled : ∀ k, C.HasWorker k →
      (s.connections k).phase.unsent = [] ∧ (s.connections k).sink = [])
    (hrest : ∀ k, C.HasWorker k → (s'.connections k).AtRest) : s'.sent C = s.sent C := by
  refine Finset.sum_congr rfl (fun k _ => ?_)
  by_cases hworker : C.HasWorker k
  · obtain ⟨hunsent, hsink⟩ := hsettled k hworker
    have hsent := (hinv.connection k).sent_eq hunsent hsink
    have hsent' := (hinv'.connection k).sent_eq (hrest k hworker).unsent (hrest k hworker).sink
    rw [hrequests, ← hsent] at hsent'
    exact congrArg (Multiset.map (fun bytes => (C.identity k, bytes))) hsent'
  · rw [hkept.direct k hworker]

/-- **What the server does comes to the clients.** Once all requests have arrived,
and while the workers have nothing to send, what the server does is followed by
its replies being routed and handed over. -/
theorem Follow.conclude (hinv : Inv T C s) (hrunning : s.Running C)
    (hsettled : ∀ k, C.HasWorker k →
      (s.connections k).phase.unsent = [] ∧ (s.connections k).sink = [])
    (hrequesting : s.requesting = 0) {x : Pipeline.State × (Nat → Trace)}
    (hserver : Pipeline.Follow P T Pipeline.Actor.IsThread (s.server, s.traces) x) :
    ∃ y, Follow P T C Actor.IsInternal s y ∧ y.Running C ∧ y.requesting = 0 ∧ y.returning = 0
      ∧ y.server = x.1 ∧ y.traces = x.2 ∧ ∀ k, C.HasWorker k → (y.connections k).AtRest := by
  obtain ⟨returning, hrun₁⟩ := Follow.serveAll (C := C) hserver
  obtain ⟨s₂, hrun₂, hreturning₂, hrequesting₂, hserver₂, htraces₂, hunread⟩ :=
    Follow.routeAll (hrun₁.inv hinv)
  have hinv₂ := Follow.inv (hrun₁.trans hrun₂) hinv
  have hrunning₂ : s₂.Running C := fun k hk => (hunread k).phase ▸ hrunning k hk
  obtain ⟨y, hrun₃, hkept, hrunning₃, hrest⟩ := Follow.workers hinv₂ hrunning₂
  have hinv₃ := Follow.inv hrun₃ hinv₂
  refine ⟨y, (hrun₁.trans hrun₂).trans hrun₃, hrunning₃, ?_, hkept.returning.trans hreturning₂,
    hkept.server.trans hserver₂, hkept.traces.trans htraces₂, hrest⟩
  -- in their last turns the workers send nothing
  have hsent := hkept.sent_eq hinv₂ hinv₃ (Follow.requests_eq hrun₃) (fun k hk => by
    rw [(hunread k).phase, (hunread k).sink]
    exact hsettled k hk) hrest
  rw [hinv₃.requests, hinv₂.requests, hkept.server, hrequesting₂, hrequesting, zero_add] at hsent
  exact add_eq_right.mp hsent

/-- **Network, server and workers come to rest.** -/
theorem Follow.quiesces {p : Ledger → (c : Call) → Answer c → Prop}
    (hlive : (completingContract.restrict p).Live)
    (hknown : ∀ s c r, p s c r → ShowsKnown ⟨c, r⟩) (hinv : Inv T C s)
    (hndb : ∀ e, (completingContract.restrict p).Admitted .empty (s.traces e))
    (hanswerable : s.Answerable) (hrunning : s.Running C) :
    ∃ y, Follow P T C Actor.IsInternal s y
      ∧ (∀ e, (completingContract.restrict p).Admitted .empty (y.traces e))
      ∧ Quiescent y ∧ ∀ k, C.HasWorker k → (y.connections k).AtRest := by
  -- what is in the sinks is sent, and arrives
  obtain ⟨s₁, hrun₁, hkept₁, hrunning₁, hrest₁⟩ := Follow.workers hinv hrunning
  obtain ⟨s₂, hrun₂, hrequesting₂, hconnections₂, htraces₂⟩ :=
    Follow.arriveAll (T := T) (C := C) s₁
  have hrun := hrun₁.trans hrun₂
  have hinv₂ := Follow.inv hrun hinv
  -- the server works on it
  have hanswerable₂ : s₂.Answerable := fun k request hrequest =>
    hanswerable k request (Follow.requests_eq hrun k ▸ hrequest)
  have hndb₂ : ∀ e, (completingContract.restrict p).Admitted .empty (s₂.traces e) := by
    rw [htraces₂, hkept₁.traces]
    exact hndb
  obtain ⟨x, hserver, hregular, hquiescent⟩ :=
    (hinv₂.regular hndb₂ hanswerable₂).quiesces hlive hknown
  -- the replies are routed, and handed over
  have hrunning₂ : s₂.Running C := fun k hk => hconnections₂ ▸ hrunning₁ k hk
  have hsettled₂ : ∀ k, C.HasWorker k →
      (s₂.connections k).phase.unsent = [] ∧ (s₂.connections k).sink = [] := fun k hk => by
    rw [hconnections₂]
    exact ⟨(hrest₁ k hk).unsent, (hrest₁ k hk).sink⟩
  obtain ⟨y, hrun₃, -, hrequesting, hreturning, hserver₃, htraces, hrest⟩ :=
    Follow.conclude hinv₂ hrunning₂ hsettled₂ hrequesting₂ hserver
  refine ⟨y, hrun.trans hrun₃, ?_, ⟨hrequesting, hreturning, ?_⟩, hrest⟩
  · rw [htraces]
    exact hregular.admitted
  · rw [hserver₃]
    exact hquiescent

end Deployment

end VoloDB
