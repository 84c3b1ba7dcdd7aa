import Mathlib.Algebra.Order.BigOperators.Group.Finset
import VoloDB.ClientExecutor
import VoloDB.ClientReplies
import VoloDB.Drain

/-!
# Clients and server together

A client is an `Executor` with a transport of some connections, one for each
of its worker threads. What the application asks for is put into a frame and
pushed to one of the workers, which sends it on its own socket; the router of
the server knows this socket by an identity. The replies come back to the
same worker, which hands their results to the delegate. A client without
worker threads has one socket, sends on it directly, and never receives.

Here the pieces are put together: the connections of all clients, the server
of `Pipeline`, and the network in between. Every thread takes its own steps,
in any order, and what is on the network arrives in any order, or never. A
worker may leave its loop at any time – `ClientTransport` says in what turns
it does – and then hands over nothing more. A call of a delegate returns.

As in `Pipeline`, the state has a history that no step reads, and the
invariant says that nothing on its way was lost or duplicated. It is a
statement about each connection, and two about what they have sent and
received together.
-/

namespace VoloDB

open Interaction FrameDecoder NDBMessageProcessor NDBMessageExecutor

namespace Deployment

/-! ## The clients -/

/-- **The connections of all clients.** -/
structure Clients where
  noConnections : Nat
  /-- The client whose connection it is. -/
  owner : Nat → Nat
  /-- What the router knows it by. -/
  identity : Nat → Bytes
  identity_injective : Function.Injective identity
  /-- `_totalWorkerThreads` of a client. -/
  totalWorkerThreads : Nat → Nat

/-- Where the client of a connection sends its requests. -/
def Clients.outlet (C : Clients) (k : Nat) : Except Bytes ClientTransport.Outlet :=
  ClientTransport.send true (C.totalWorkerThreads (C.owner k))

/-- The connections that have a worker. -/
def Clients.HasWorker (C : Clients) (k : Nat) : Prop :=
  k < C.noConnections ∧ C.outlet k = .ok .sendPushSocket

/-- **A call of `execute` that has sent a frame.** -/
structure Request (P : Protobuf) where
  operations : List Message
  uuids : List Bytes
  runAtomic : Bool
  bytes : Bytes
  execute_eq : ClientExecutor.execute P operations uuids runAtomic = .bytes bytes

/-- A call of the overload for one operation. -/
def Request.one {P : Protobuf} {operation : Message} {uuid bytes : Bytes}
    (h : ClientExecutor.executeOne P operation uuid = .bytes bytes) : Request P where
  operations := [operation]
  uuids := [uuid]
  runAtomic := false
  bytes := bytes
  execute_eq := (ClientExecutor.executeOne_eq P operation uuid).symm.trans h

/-- Where a worker is in its loop. -/
inductive WorkerPhase where
  /-- It drains its client socket. -/
  | receiving (messages : List Bytes)
  /-- It drains its sink. -/
  | draining (messages : List Bytes)
  /-- It sends what was in its sink. -/
  | forwarding (messages : List Bytes)
  /-- It has left its loop, with what it held. -/
  | left (received unsent : List Bytes)
  /-- It has read past the end of a list. -/
  | failed

/-- **A connection with its worker.** -/
structure Connection (P : Protobuf) where
  sink : List Bytes
  inbox : List Bytes
  phase : WorkerPhase
  /-- History: the calls whose frames it was given. -/
  requests : List (Request P)
  /-- History: the frames it has sent. -/
  sent : List Bytes
  /-- History: the replies that came in. -/
  received : List Bytes
  /-- History: the calls of `didReceiveResponse`. -/
  responses : List (List (Option Result))

/-- **Clients, network and server.** -/
structure State (P : Protobuf) where
  connections : Nat → Connection P
  /-- What is on its way to the server. -/
  requesting : Multiset (Bytes × Bytes)
  server : Pipeline.State
  /-- History: the calls of the executors of the server. -/
  traces : Nat → Trace
  /-- What is on its way to the clients. -/
  returning : Multiset (Bytes × Bytes)

variable {P : Protobuf}

/-- Before the first request. -/
def State.init : State P where
  connections _ := ⟨[], [], .receiving [], [], [], [], []⟩
  requesting := 0
  server := Pipeline.State.init
  traces _ := []
  returning := 0

def State.setConnection (s : State P) (k : Nat) (connection : Connection P) : State P :=
  { s with connections := Function.update s.connections k connection }

/-- A connection sends a frame. -/
def State.send (s : State P) (k : Nat) (connection : Connection P) (request : Bytes × Bytes) :
    State P :=
  { s with
    connections := Function.update s.connections k connection
    requesting := request ::ₘ s.requesting }

/-- What a worker that has drained its socket hands to its delegate. -/
def handOver (P : Protobuf) (messages : List Bytes) : Option (List (List (Option Result))) :=
  if messages.length > 0 then ClientExecutor.didReceiveMessage P true messages else some []

/-! ## Steps -/

/-- Who takes a step. -/
inductive Actor where
  | application
  | worker (k : Nat)
  | network
  | server
deriving DecidableEq

section Steps

variable (P) (T : Pipeline.Threads) (C : Clients)

/-- **One step** of a client, of the network, or of the server. -/
inductive Step : State P → Actor → State P → Prop
  /-- The application calls `execute`: a worker gets the frame. -/
  | execute {s : State P} {k : Nat} {connection : Connection P} (hworker : C.HasWorker k)
      (h : s.connections k = connection) (request : Request P) :
    Step s .application (s.setConnection k { connection with
      sink := connection.sink ++ [request.bytes]
      requests := connection.requests ++ [request] })
  /-- The application calls `execute` of a client without worker threads. -/
  | executeDirectly {s : State P} {k : Nat} {connection : Connection P}
      (hk : k < C.noConnections) (h : s.connections k = connection)
      (houtlet : C.outlet k = .ok .clientSocket) (request : Request P) :
    Step s .application (s.send k { connection with
      requests := connection.requests ++ [request]
      sent := connection.sent ++ [request.bytes] } (C.identity k, request.bytes))
  /-- A worker receives a reply. -/
  | receive {s : State P} {k : Nat} {connection : Connection P} {messages : List Bytes}
      {message : Bytes} {inbox : List Bytes} (h : s.connections k = connection)
      (hworker : C.HasWorker k)
      (hphase : connection.phase = .receiving messages)
      (hinbox : connection.inbox = message :: inbox) :
    Step s (.worker k) (s.setConnection k { connection with
      inbox := inbox
      phase := .receiving (messages ++ [message]) })
  /-- A worker has drained its socket, and its delegate is called. -/
  | handOver {s : State P} {k : Nat} {connection : Connection P} {messages : List Bytes}
      {calls : List (List (Option Result))} (h : s.connections k = connection)
      (hworker : C.HasWorker k)
      (hphase : connection.phase = .receiving messages) (hinbox : connection.inbox = [])
      (hcalls : handOver P messages = some calls) :
    Step s (.worker k) (s.setConnection k { connection with
      phase := .draining []
      responses := connection.responses ++ calls })
  /-- The decoder reads past the end of the replies. -/
  | handOverFails {s : State P} {k : Nat} {connection : Connection P} {messages : List Bytes}
      (h : s.connections k = connection) (hworker : C.HasWorker k)
      (hphase : connection.phase = .receiving messages) (hinbox : connection.inbox = [])
      (hfail : handOver P messages = none) :
    Step s (.worker k) (s.setConnection k { connection with phase := .failed })
  /-- A worker takes a frame from its sink. -/
  | drain {s : State P} {k : Nat} {connection : Connection P} {messages : List Bytes}
      {message : Bytes} {sink : List Bytes} (h : s.connections k = connection)
      (hworker : C.HasWorker k)
      (hphase : connection.phase = .draining messages)
      (hsink : connection.sink = message :: sink) :
    Step s (.worker k) (s.setConnection k { connection with
      sink := sink
      phase := .draining (messages ++ [message]) })
  /-- A worker has drained its sink. -/
  | drained {s : State P} {k : Nat} {connection : Connection P} {messages : List Bytes}
      (h : s.connections k = connection) (hworker : C.HasWorker k)
      (hphase : connection.phase = .draining messages) (hsink : connection.sink = []) :
    Step s (.worker k) (s.setConnection k { connection with phase := .forwarding messages })
  /-- A worker sends a frame. -/
  | forward {s : State P} {k : Nat} {connection : Connection P} {message : Bytes}
      {messages : List Bytes} (h : s.connections k = connection)
      (hworker : C.HasWorker k)
      (hphase : connection.phase = .forwarding (message :: messages)) :
    Step s (.worker k) (s.send k { connection with
      phase := .forwarding messages
      sent := connection.sent ++ [message] } (C.identity k, message))
  /-- A worker has sent what was in its sink, and begins its next turn. -/
  | forwarded {s : State P} {k : Nat} {connection : Connection P}
      (h : s.connections k = connection) (hworker : C.HasWorker k)
      (hphase : connection.phase = .forwarding []) :
    Step s (.worker k) (s.setConnection k { connection with phase := .receiving [] })
  /-- A worker leaves its loop: it was stopped, a socket has failed, or its
  sends have left another value than `EAGAIN` in `errno`. -/
  | leave {s : State P} {k : Nat} {connection : Connection P}
      (h : s.connections k = connection) (hworker : C.HasWorker k)
      {received unsent : List Bytes}
      (hphase : connection.phase = .receiving received ∧ unsent = []
        ∨ (connection.phase = .draining unsent ∨ connection.phase = .forwarding unsent)
          ∧ received = []) :
    Step s (.worker k) (s.setConnection k { connection with phase := .left received unsent })
  /-- A request arrives at the server, and is passed to a definer. -/
  | arrive {s : State P} {d : Nat} {definer : Pipeline.Definer} {request : Bytes × Bytes}
      {requesting : Multiset (Bytes × Bytes)} (hd : d < T.noDefinerThread)
      (h : s.server.definers d = definer) (hrequesting : s.requesting = request ::ₘ requesting) :
    Step s .network { s with
      requesting := requesting
      server := s.server.setDefiner d { definer with
        worker := definer.worker ++ [request]
        requests := definer.requests ++ [request] } }
  /-- A thread of the server takes a step. What a definer sends is on its way
  to the clients. -/
  | serve {s : State P} {actor : Pipeline.Actor} {server : Pipeline.State}
      {traces : Nat → Trace} {replies : Multiset (Bytes × Bytes)} (hactor : actor.IsThread)
      (h : Pipeline.Observed P T (s.server, s.traces) actor (server, traces))
      (hreplies : server.answers T = s.server.answers T + replies) :
    Step s .server { s with
      server := server
      traces := traces
      returning := s.returning + replies }
  /-- A reply arrives at the connection it is routed to. -/
  | route {s : State P} {k : Nat} {connection : Connection P} {bytes : Bytes}
      {returning : Multiset (Bytes × Bytes)} (hk : k < C.noConnections)
      (h : s.connections k = connection)
      (hreturning : s.returning = (C.identity k, bytes) ::ₘ returning) :
    Step s .network { s.setConnection k { connection with
      inbox := connection.inbox ++ [bytes]
      received := connection.received ++ [bytes] } with returning := returning }

/-- What follows by steps of certain actors. -/
def Follow (actors : Actor → Prop) : State P → State P → Prop :=
  Relation.ReflTransGen (fun s s' => ∃ actor, actors actor ∧ Step P T C s actor s')

/-- **The states of clients and server.** -/
def Reachable (s : State P) : Prop := Follow P T C (fun _ => True) State.init s

end Steps

/-! ## The invariant -/

namespace WorkerPhase

/-- The replies that were received and are not handed over. -/
def received : WorkerPhase → List Bytes
  | .receiving messages => messages
  | .left received _ => received
  | _ => []

/-- The frames that were taken from the sink and are not sent. -/
def unsent : WorkerPhase → List Bytes
  | .draining messages => messages
  | .forwarding messages => messages
  | .left _ unsent => unsent
  | _ => []

end WorkerPhase

/-- **The invariant of a connection.** -/
structure Connection.Inv (connection : Connection P) : Prop where
  /-- Every frame has been sent, was taken from the sink, or waits. -/
  requests : (connection.requests.map Request.bytes : Multiset Bytes)
    = connection.sent + connection.phase.unsent + connection.sink
  /-- Every reply is one of the server, and its result has been handed over,
  or it was received, or it waits. -/
  replies : ∃ handed pending waiting : List Result,
    connection.responses.flatten = handed.map some
      ∧ connection.phase.received = pending.map (replyBytes P)
      ∧ connection.inbox = waiting.map (replyBytes P)
      ∧ connection.received = (handed ++ pending ++ waiting).map (replyBytes P)
  not_failed : connection.phase ≠ .failed

/-- Frames under the identity of a connection. -/
def Clients.addressed (C : Clients) (k : Nat) (frames : List Bytes) : Multiset (Bytes × Bytes) :=
  (frames.map (fun bytes => (C.identity k, bytes)) : List (Bytes × Bytes))

/-- What the connections have sent. -/
def State.sent (C : Clients) (s : State P) : Multiset (Bytes × Bytes) :=
  ∑ k ∈ Finset.range C.noConnections, C.addressed k (s.connections k).sent

/-- What has been routed to the connections. -/
def State.routed (C : Clients) (s : State P) : Multiset (Bytes × Bytes) :=
  ∑ k ∈ Finset.range C.noConnections, C.addressed k (s.connections k).received

/-- What has arrived at the server. -/
def arrived (T : Pipeline.Threads) (s : Pipeline.State) :
    Multiset (Bytes × Bytes) :=
  ∑ d ∈ Finset.range T.noDefinerThread, ((s.definers d).requests : Multiset (Bytes × Bytes))

variable (T : Pipeline.Threads) (C : Clients)

/-- **The invariant of clients and server.** -/
structure Inv (s : State P) : Prop where
  connection : ∀ k, (s.connections k).Inv
  observes : Pipeline.Observes P T s.server s.traces
  /-- What was sent is on its way or has arrived. -/
  requests : s.sent C = s.requesting + arrived T s.server
  /-- What the server has sent is on its way or has been routed. -/
  replies : s.server.answers T = s.returning + s.routed C

variable {T C} {connection : Connection P}

/-! ## The steps of a connection -/

/-- **What is handed to the delegate**: the results of the replies. -/
theorem handOver_replies (results : List Result) :
    ∃ calls, handOver P (results.map (replyBytes P)) = some calls
      ∧ calls.flatten = results.map some := by
  let batch : List (ClientExecutor.Arrival P) :=
    results.map (fun result => .reply result (replyBytes P result) rfl)
  have hbytes : batch.map ClientExecutor.Arrival.bytes = results.map (replyBytes P) :=
    List.map_map
  have hresults : ClientExecutor.results batch = results := by
    show (results.map _).filterMap ClientExecutor.Arrival.result? = results
    rw [List.filterMap_map]
    exact List.filterMap_some
  have hcalls := ClientExecutor.didReceiveMessage_eq P batch
  unfold ClientExecutor.responses at hcalls
  rw [hbytes, hresults] at hcalls
  unfold handOver
  cases results with
  | nil => exact ⟨[], rfl, rfl⟩
  | cons result results =>
    have hpos : ((result :: results).map (replyBytes P)).length > 0 := Nat.zero_lt_succ _
    rw [if_pos hpos, hcalls, if_neg (List.cons_ne_nil _ _)]
    exact ⟨_, rfl, List.flatten_singleton⟩

namespace Connection.Inv

theorem execute (h : connection.Inv) (request : Request P) :
    Connection.Inv { connection with
      sink := connection.sink ++ [request.bytes]
      requests := connection.requests ++ [request] } := by
  refine ⟨?_, h.replies, h.not_failed⟩
  rw [List.map_append, ← Multiset.coe_add, h.requests, ← Multiset.coe_add]
  exact add_assoc _ _ _

theorem executeDirectly (h : connection.Inv) (request : Request P) :
    Connection.Inv { connection with
      requests := connection.requests ++ [request]
      sent := connection.sent ++ [request.bytes] } := by
  refine ⟨?_, h.replies, h.not_failed⟩
  rw [List.map_append, ← Multiset.coe_add, h.requests, ← Multiset.coe_add]
  show (connection.sent + connection.phase.unsent + connection.sink + [request.bytes] :
      Multiset Bytes)
    = connection.sent + [request.bytes] + connection.phase.unsent + connection.sink
  rw [add_right_comm _ (connection.sink : Multiset Bytes),
    add_right_comm (connection.sent : Multiset Bytes)]

theorem receive (h : connection.Inv) {messages inbox : List Bytes} {message : Bytes}
    (hphase : connection.phase = .receiving messages)
    (hinbox : connection.inbox = message :: inbox) :
    Connection.Inv { connection with
      inbox := inbox
      phase := .receiving (messages ++ [message]) } := by
  obtain ⟨hrequests, ⟨handed, pending, waiting, hresponses, hpending, hwaiting, hreceived⟩, -⟩ := h
  rw [hphase] at hrequests hpending
  rw [hinbox] at hwaiting
  cases waiting with
  | nil => exact absurd hwaiting (List.cons_ne_nil _ _)
  | cons result waiting =>
    obtain ⟨rfl, rfl⟩ := List.cons.inj hwaiting
    refine ⟨hrequests, ⟨handed, pending ++ [result], waiting, hresponses, ?_, rfl, ?_⟩,
      fun h => nomatch h⟩
    · show messages ++ [replyBytes P result] = _
      rw [List.map_append, ← hpending]
      rfl
    · rw [hreceived]
      simp

/-- The replies of the server can be decoded. -/
theorem handOver_ne_none (h : connection.Inv) {messages : List Bytes}
    (hphase : connection.phase = .receiving messages) :
    Deployment.handOver P messages ≠ none := by
  obtain ⟨-, ⟨handed, pending, waiting, -, hpending, -, -⟩, -⟩ := h
  rw [hphase] at hpending
  obtain rfl : messages = _ := hpending
  obtain ⟨calls, hcalls, -⟩ := handOver_replies (P := P) pending
  rw [hcalls]
  exact Option.some_ne_none calls

theorem handOver (h : connection.Inv) {messages : List Bytes}
    {calls : List (List (Option Result))} (hphase : connection.phase = .receiving messages)
    (hcalls : Deployment.handOver P messages = some calls) :
    Connection.Inv { connection with
      phase := .draining []
      responses := connection.responses ++ calls } := by
  obtain ⟨hrequests, ⟨handed, pending, waiting, hresponses, hpending, hwaiting, hreceived⟩, -⟩ := h
  rw [hphase] at hrequests hpending
  obtain rfl : messages = _ := hpending
  obtain ⟨calls', hcalls', hflatten⟩ := handOver_replies (P := P) pending
  obtain rfl := Option.some.inj (hcalls.symm.trans hcalls')
  refine ⟨hrequests, ⟨handed ++ pending, [], waiting, ?_, rfl, hwaiting, ?_⟩, fun h => nomatch h⟩
  · rw [List.flatten_append, hresponses, hflatten, List.map_append]
  · rw [hreceived, List.append_nil]

theorem drain (h : connection.Inv) {messages sink : List Bytes} {message : Bytes}
    (hphase : connection.phase = .draining messages) (hsink : connection.sink = message :: sink) :
    Connection.Inv { connection with
      sink := sink
      phase := .draining (messages ++ [message]) } := by
  obtain ⟨hrequests, hreplies, -⟩ := h
  rw [hphase] at hrequests hreplies
  refine ⟨?_, hreplies, fun h => nomatch h⟩
  rw [hrequests, hsink]
  show (connection.sent + messages + (message :: sink : List Bytes) : Multiset Bytes)
    = connection.sent + (messages ++ [message] : List Bytes) + sink
  rw [Pipeline.coe_concat, ← Multiset.cons_coe, Multiset.add_cons, Multiset.add_cons,
    Multiset.cons_add]

/-- A worker goes from one phase to another with the same in its hands. -/
theorem moveTo (h : connection.Inv) {phase : WorkerPhase}
    (hreceived : phase.received = connection.phase.received)
    (hunsent : phase.unsent = connection.phase.unsent) (hphase : phase ≠ .failed) :
    Connection.Inv { connection with phase := phase } := by
  obtain ⟨hrequests, hreplies, -⟩ := h
  rw [← hunsent] at hrequests
  rw [← hreceived] at hreplies
  exact ⟨hrequests, hreplies, hphase⟩

theorem forward (h : connection.Inv) {message : Bytes} {messages : List Bytes}
    (hphase : connection.phase = .forwarding (message :: messages)) :
    Connection.Inv { connection with
      phase := .forwarding messages
      sent := connection.sent ++ [message] } := by
  obtain ⟨hrequests, hreplies, -⟩ := h
  rw [hphase] at hrequests hreplies
  refine ⟨?_, hreplies, fun h => nomatch h⟩
  rw [hrequests]
  show (connection.sent + (message :: messages : List Bytes) + connection.sink : Multiset Bytes)
    = (connection.sent ++ [message] : List Bytes) + messages + connection.sink
  rw [Pipeline.coe_concat, ← Multiset.cons_coe, Multiset.add_cons,
    Multiset.cons_add message connection.sent messages]

theorem route (h : connection.Inv) (result : Result) :
    Connection.Inv { connection with
      inbox := connection.inbox ++ [replyBytes P result]
      received := connection.received ++ [replyBytes P result] } := by
  obtain ⟨hrequests, ⟨handed, pending, waiting, hresponses, hpending, hwaiting, hreceived⟩, hf⟩ := h
  refine ⟨hrequests, ⟨handed, pending, waiting ++ [result], hresponses, hpending, ?_, ?_⟩, hf⟩
  · rw [hwaiting, List.map_append]
    rfl
  · show connection.received ++ [result].map (replyBytes P) = _
    rw [hreceived, ← List.map_append, List.append_assoc _ waiting]

end Connection.Inv

end Deployment

/-! ## The steps of the server -/

/-- What is added at one place is added to the whole. -/
theorem sum_update_add {σ M : Type} [AddCommMonoid M] {F : Nat → σ → M} {g : Nat → σ}
    {n k : Nat} {b : σ} {x : M} (hk : k < n) (h : F k b = F k (g k) + x) :
    ∑ i ∈ Finset.range n, F i (Function.update g k b i) = ∑ i ∈ Finset.range n, F i (g i) + x := by
  have hupdate : ∀ i, F i (Function.update g k b i) = F i (g i) + if k = i then x else 0 := by
    intro i
    by_cases hi : i = k
    · subst hi
      rw [Function.update_self, if_pos rfl, h]
    · rw [Function.update_of_ne hi, if_neg (Ne.symm hi), add_zero]
  rw [Finset.sum_congr rfl (fun i _ => hupdate i), Finset.sum_add_distrib, Finset.sum_ite_eq,
    if_pos (Finset.mem_range.mpr hk)]

/-- What is the same at one place is the same as a whole. -/
theorem sum_update_eq {σ M : Type} [AddCommMonoid M] {F : Nat → σ → M} {g : Nat → σ}
    (n : Nat) {k : Nat} {b : σ} (h : F k b = F k (g k)) :
    ∑ i ∈ Finset.range n, F i (Function.update g k b i) = ∑ i ∈ Finset.range n, F i (g i) := by
  refine Finset.sum_congr rfl (fun i _ => ?_)
  by_cases hi : i = k
  · subst hi
    rw [Function.update_self, h]
  · rw [Function.update_of_ne hi]

namespace Pipeline

variable {P : Protobuf} {T : Threads} {s s' : State}

/-- What a definer has sent stays sent. -/
theorem Step.sent_prefix {actor : Actor} (h : Step P T s actor s') (d : Nat) :
    (s.definers d).sent <+: (s'.definers d).sent := by
  have hset : ∀ {d' : Nat} {definer definer' : Definer}, s.definers d' = definer →
      definer.sent <+: definer'.sent →
      (s.definers d).sent <+: (Function.update s.definers d' definer' d).sent := by
    rintro d' _ definer' rfl hprefix
    by_cases hd : d = d'
    · subst hd
      rwa [Function.update_self]
    · rw [Function.update_of_ne hd]
  cases h with
  | request hd h | receiveRequest h | noRequest h | decode h | decodeFails h | assigned h
  | receiveReply h | collected h | collectFails h | forwarded h => exact hset h (List.prefix_refl _)
  | forward h => exact hset h (List.prefix_append _ _)
  | assign hd => exact hset hd (List.prefix_refl _)
  | send he hd => exact hset hd (List.prefix_refl _)
  | receiveTask | execute | call | finished => exact List.prefix_refl _

/-- **Answers are not taken back.** -/
theorem Step.answers_le {actor : Actor} (h : Step P T s actor s') :
    s.answers T ≤ s'.answers T :=
  Finset.sum_le_sum (fun d _ => (h.sent_prefix d).sublist.subperm)

theorem Follow.answers_le {actors : Actor → Prop} {x y : State × (Nat → Trace)}
    (h : Follow P T actors x y) : x.1.answers T ≤ y.1.answers T := by
  induction h with
  | refl => exact le_rfl
  | tail _ hstep ih =>
    obtain ⟨actor, -, hobserved⟩ := hstep
    exact ih.trans hobserved.step.answers_le

/-- **An answer is a reply** to a client that has asked for something. -/
theorem Reachable.reply_of_answer (h : Reachable P T s) {reply : Bytes × Bytes}
    (hreply : reply ∈ s.answers T) :
    ∃ t result, s.Asked P reply.1 t ∧ reply.2 = replyBytes P result := by
  obtain ⟨d, -, hsent⟩ := Multiset.mem_sum.mp hreply
  obtain ⟨e, subject, -, hpushed⟩ := mem_pushedTo (h.inv.mem_pushedTo_of_sent hsent)
  obtain ⟨t, -, -, ⟨-, result, -, hbytes⟩, hasked⟩ := h.inv.asked_of_pushed hpushed
  exact ⟨t, result, hasked, hbytes⟩

end Pipeline

namespace Deployment

variable {P : Protobuf} {T : Pipeline.Threads} {s s' : Pipeline.State}

/-- Only what comes from the network arrives. -/
theorem arrived_of_thread {actor : Pipeline.Actor} (h : Pipeline.Step P T s actor s')
    (hactor : actor.IsThread) : arrived T s' = arrived T s := by
  refine Finset.sum_congr rfl (fun d _ => congrArg _ ?_)
  exact (h.requests_eq d).resolve_left (fun hclient => hactor hclient.1)

theorem arrived_request {d : Nat} (hd : d < T.noDefinerThread) (request : Bytes × Bytes) :
    arrived T (s.setDefiner d { s.definers d with
      worker := (s.definers d).worker ++ [request]
      requests := (s.definers d).requests ++ [request] }) = request ::ₘ arrived T s := by
  have hconcat : (((s.definers d).requests ++ [request] : List (Bytes × Bytes)) :
      Multiset (Bytes × Bytes)) = (s.definers d).requests + {request} := rfl
  rw [← Multiset.singleton_add, add_comm]
  exact sum_update_add
    (F := fun _ (definer : Pipeline.Definer) => (definer.requests : Multiset (Bytes × Bytes)))
    hd hconcat

theorem answers_request {d : Nat} (request : Bytes × Bytes) :
    (s.setDefiner d { s.definers d with
      worker := (s.definers d).worker ++ [request]
      requests := (s.definers d).requests ++ [request] }).answers T = s.answers T :=
  sum_update_eq
    (F := fun _ (definer : Pipeline.Definer) => (definer.sent : Multiset (Bytes × Bytes)))
    T.noDefinerThread rfl

/-! ## The steps of clients and server -/

section Inv

variable {C : Clients} {s s' : State P} {k : Nat} {connection : Connection P}

theorem inv_init : Inv T C (State.init : State P) where
  connection _ := ⟨rfl, ⟨[], [], [], rfl, rfl, rfl, rfl⟩, fun h => nomatch h⟩
  observes := .refl
  requests := by
    show _ = 0 + arrived T Pipeline.State.init
    rw [zero_add]
    exact (Finset.sum_const_zero (s := Finset.range C.noConnections)).trans
      (Finset.sum_const_zero (s := Finset.range T.noDefinerThread)).symm
  replies := by
    show _ = 0 + (State.init : State P).routed C
    rw [zero_add]
    exact (Finset.sum_const_zero (s := Finset.range T.noDefinerThread)).trans
      (Finset.sum_const_zero (s := Finset.range C.noConnections)).symm

theorem addressed_concat (C : Clients) (k : Nat) (frames : List Bytes) (bytes : Bytes) :
    C.addressed k (frames ++ [bytes]) = C.addressed k frames + {(C.identity k, bytes)} := by
  unfold Clients.addressed
  rw [List.map_append]
  rfl

/-- A connection that sends nothing. -/
theorem sent_eq (hs : s'.connections = Function.update s.connections k connection)
    (h : connection.sent = (s.connections k).sent) : s'.sent C = s.sent C := by
  unfold State.sent
  rw [hs]
  exact sum_update_eq (F := fun k (connection : Connection P) => C.addressed k connection.sent)
    C.noConnections (congrArg (C.addressed k) h)

/-- A connection that sends a frame. -/
theorem sent_concat (hs : s'.connections = Function.update s.connections k connection)
    (hk : k < C.noConnections) {bytes : Bytes}
    (h : connection.sent = (s.connections k).sent ++ [bytes]) :
    s'.sent C = (C.identity k, bytes) ::ₘ s.sent C := by
  unfold State.sent
  rw [hs, ← Multiset.singleton_add, add_comm]
  exact sum_update_add (F := fun k (connection : Connection P) => C.addressed k connection.sent)
    hk ((congrArg (C.addressed k) h).trans (addressed_concat C k _ bytes))

/-- A connection to which nothing comes. -/
theorem routed_eq (hs : s'.connections = Function.update s.connections k connection)
    (h : connection.received = (s.connections k).received) : s'.routed C = s.routed C := by
  unfold State.routed
  rw [hs]
  exact sum_update_eq
    (F := fun k (connection : Connection P) => C.addressed k connection.received)
    C.noConnections (congrArg (C.addressed k) h)

/-- A connection to which a reply comes. -/
theorem routed_concat (hs : s'.connections = Function.update s.connections k connection)
    (hk : k < C.noConnections) {bytes : Bytes}
    (h : connection.received = (s.connections k).received ++ [bytes]) :
    s'.routed C = (C.identity k, bytes) ::ₘ s.routed C := by
  unfold State.routed
  rw [hs, ← Multiset.singleton_add, add_comm]
  exact sum_update_add
    (F := fun k (connection : Connection P) => C.addressed k connection.received)
    hk ((congrArg (C.addressed k) h).trans (addressed_concat C k _ bytes))

/-- What holds of a connection after a step, and held of the others before,
holds of all. -/
theorem Inv.update (h : Inv T C s) (hconnection : connection.Inv) (k' : Nat) :
    (Function.update s.connections k connection k').Inv :=
  (Function.forall_update_iff s.connections (fun _ (x : Connection P) => x.Inv)).mpr
    ⟨hconnection, fun k' _ => h.connection k'⟩ k'

/-- A step of a connection that sends nothing, and to which nothing comes. -/
theorem Inv.setConnection (h : Inv T C s) (hconnection : connection.Inv)
    (hsent : connection.sent = (s.connections k).sent)
    (hreceived : connection.received = (s.connections k).received) :
    Inv T C (s.setConnection k connection) where
  connection := h.update hconnection
  observes := h.observes
  requests := (sent_eq rfl hsent).trans h.requests
  replies := h.replies.trans (congrArg (s.returning + ·) (routed_eq rfl hreceived).symm)

/-- A step in which a connection sends a frame. -/
theorem Inv.send (h : Inv T C s) (hk : k < C.noConnections) (hconnection : connection.Inv)
    {bytes : Bytes} (hsent : connection.sent = (s.connections k).sent ++ [bytes])
    (hreceived : connection.received = (s.connections k).received) :
    Inv T C (s.send k connection (C.identity k, bytes)) where
  connection := h.update hconnection
  observes := h.observes
  requests := by
    rw [sent_concat rfl hk hsent, h.requests]
    exact (Multiset.cons_add _ _ _).symm
  replies := h.replies.trans (congrArg (s.returning + ·) (routed_eq rfl hreceived).symm)

/-- A step in which a reply comes to a connection. -/
theorem Inv.route (h : Inv T C s) (hk : k < C.noConnections) {bytes : Bytes}
    {returning : Multiset (Bytes × Bytes)}
    (hreturning : s.returning = (C.identity k, bytes) ::ₘ returning) :
    Inv T C { s.setConnection k { s.connections k with
      inbox := (s.connections k).inbox ++ [bytes]
      received := (s.connections k).received ++ [bytes] } with returning := returning } := by
  have hmem : (C.identity k, bytes) ∈ s.server.answers T := by
    rw [h.replies, hreturning]
    exact Multiset.mem_add.mpr (Or.inl (Multiset.mem_cons_self _ _))
  obtain ⟨t, result, -, hbytes⟩ := h.observes.reachable.reply_of_answer hmem
  obtain rfl : bytes = replyBytes P result := hbytes
  generalize hs' : s.setConnection k _ = s'
  have hconnections := congrArg State.connections hs'.symm
  refine ⟨?_, ?_, ?_, ?_⟩
  · subst hs'
    exact h.update ((h.connection k).route result)
  · subst hs'
    exact h.observes
  · subst hs'
    exact (sent_eq hconnections rfl).trans h.requests
  · subst hs'
    refine h.replies.trans (Eq.trans ?_
      (congrArg (returning + ·) (routed_concat hconnections hk rfl).symm))
    rw [hreturning, Multiset.cons_add, Multiset.add_cons]

/-- **Every step keeps the invariant.** -/
theorem Inv.step {actor : Actor} (h : Inv T C s) (hstep : Step P T C s actor s') :
    Inv T C s' := by
  cases hstep with
  | @execute k connection hworker hk request =>
    subst hk
    exact h.setConnection ((h.connection k).execute request) rfl rfl
  | @executeDirectly k connection hlt hk houtlet request =>
    subst hk
    exact h.send hlt ((h.connection k).executeDirectly request) rfl rfl
  | @receive k connection messages message inbox hk hworker hphase hinbox =>
    subst hk
    exact h.setConnection ((h.connection k).receive hphase hinbox) rfl rfl
  | @handOver k connection messages calls hk hworker hphase hinbox hcalls =>
    subst hk
    exact h.setConnection ((h.connection k).handOver hphase hcalls) rfl rfl
  | @handOverFails k connection messages hk hworker hphase hinbox hfail =>
    subst hk
    exact absurd hfail ((h.connection k).handOver_ne_none hphase)
  | @drain k connection messages message sink hk hworker hphase hsink =>
    subst hk
    exact h.setConnection ((h.connection k).drain hphase hsink) rfl rfl
  | @drained k connection messages hk hworker hphase hsink =>
    subst hk
    exact h.setConnection ((h.connection k).moveTo (by rw [hphase]; rfl) (by rw [hphase]; rfl)
      (fun h => nomatch h)) rfl rfl
  | @forward k connection message messages hk hworker hphase =>
    subst hk
    exact h.send hworker.1 ((h.connection k).forward hphase) rfl rfl
  | @forwarded k connection hk hworker hphase =>
    subst hk
    exact h.setConnection ((h.connection k).moveTo (by rw [hphase]; rfl) (by rw [hphase]; rfl)
      (fun h => nomatch h)) rfl rfl
  | @leave k connection hk hworker received unsent hphase =>
    subst hk
    refine h.setConnection ((h.connection k).moveTo ?_ ?_ (fun h => nomatch h)) rfl rfl
    · rcases hphase with ⟨hphase, -⟩ | ⟨hphase | hphase, rfl⟩ <;> rw [hphase] <;> rfl
    · rcases hphase with ⟨hphase, rfl⟩ | ⟨hphase | hphase, -⟩ <;> rw [hphase] <;> rfl
  | @arrive d definer request requesting hd hdefiner hrequesting =>
    subst hdefiner
    refine ⟨h.connection, ?_, ?_, h.replies.symm.trans ?_ |>.symm⟩
    · exact h.observes.tail ⟨.client, trivial, .silent _ (.request hd rfl request)
        (fun e he => nomatch he)⟩
    · rw [arrived_request hd request]
      refine h.requests.trans ?_
      rw [hrequesting, Multiset.cons_add, Multiset.add_cons]
    · exact (answers_request request).symm
  | @serve actor server traces replies hactor hobserved hreplies =>
    refine ⟨h.connection, h.observes.tail ⟨actor, trivial, hobserved⟩, ?_, ?_⟩
    · rw [arrived_of_thread hobserved.step hactor]
      exact h.requests
    · rw [hreplies, h.replies]
      exact add_right_comm _ _ _
  | @route k connection bytes returning hlt hk hreturning =>
    subst hk
    exact h.route hlt hreturning

/-- **The run lemma.** -/
theorem Follow.inv {actors : Actor → Prop} (h : Follow P T C actors s s') (hs : Inv T C s) :
    Inv T C s' := by
  induction h with
  | refl => exact hs
  | tail _ hstep ih =>
    obtain ⟨actor, -, hstep⟩ := hstep
    exact ih.step hstep

theorem Reachable.inv (h : Reachable P T C s) : Inv T C s := Follow.inv h inv_init

end Inv

end Deployment

end VoloDB
