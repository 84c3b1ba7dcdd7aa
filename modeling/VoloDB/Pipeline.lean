import Mathlib.Algebra.Order.Group.Multiset
import Mathlib.Logic.Function.Basic
import Mathlib.Logic.Relation
import VoloDB.BatchRuns
import VoloDB.Pairing

/-!
# From the worker sockets to the sinks and back

The server is a pipeline of threads. The worker threads of
`ServerTransport`, the **definers**, drain the requests of the clients from
their worker sockets, decode them, and hand the tuples out to the executors
in buckets, an executor chosen at random for each tuple. The **executors**
work through the buckets in batches, and push their replies into the sink
of the definer with their number modulo the number of definers. The
definers drain their sinks and send the replies on over their worker
sockets, from where the router delivers them by identity.

Every thread takes its own steps, in any order: a part received, a bucket
sent, one call of an executor with any answer. A multipart message is
received whole, and what different threads have sent to a socket is
received in any order.

Along with the sockets and the threads, the state has a **history**: what
has been asked, decoded, handed over, taken, pushed and sent. It is read by
no step. The results are about it: at every moment, what has been handed
over is somewhere on its way, once, under the identity it came with.
-/

namespace VoloDB

open Interaction FrameDecoder NDBMessageProcessor NDBMessageExecutor Stride

namespace Pipeline

/-! ## The threads -/

/-- How many threads of each kind there are. -/
structure Threads where
  noDefinerThread : Nat
  noExecutorThreads : Nat
  definer_pos : 0 < noDefinerThread
  executor_pos : 0 < noExecutorThreads

/-- Where a definer is in its loop. -/
inductive DefinerPhase where
  /-- It drains its worker socket. -/
  | receiving (messages : List Bytes)
  /-- It sends the buckets of a batch. -/
  | assigning (tasks : Multiset (Nat × List FrameMessagesTuple))
  /-- It drains its sink. -/
  | collecting (messages : List Bytes)
  /-- It sends the replies on. -/
  | forwarding (replies : List (Bytes × Bytes))
  /-- It has read past the end of a list. -/
  | failed

/-- A batch of requests, and the numbers `rand` returned for it. -/
structure Batch where
  requests : List (Bytes × Bytes)
  random : Nat → Nat

/-- **A definer with its sockets.** A request and a reply are an identity
and a frame. -/
structure Definer where
  worker : List (Bytes × Bytes)
  sink : Multiset (Bytes × Bytes)
  phase : DefinerPhase
  /-- History: the requests that came in. -/
  requests : List (Bytes × Bytes)
  /-- History: the batches it has decoded. -/
  batches : List Batch
  /-- History: the replies it has sent on its worker socket. -/
  sent : List (Bytes × Bytes)

/-- Where an executor is in its loop. -/
inductive ExecutorPhase where
  /-- It drains its task socket. NDB may hold prepared transactions. -/
  | receiving (messages : List (List FrameMessagesTuple)) (pending : List NdbTransactionState)
  /-- It runs a batch; what remains of the program. -/
  | running (program : Exec (List NdbTransactionState))

/-- **An executor with its task socket.** -/
structure Executor where
  tasks : Multiset (List FrameMessagesTuple)
  phase : ExecutorPhase
  /-- History: the buckets it has received. -/
  received : List (List FrameMessagesTuple)
  /-- History: what it has done with them. -/
  progress : Progress

/-- **The server.** -/
structure State where
  definers : Nat → Definer
  executors : Nat → Executor
  /-- History: definer, executor and bucket of every hand-over. -/
  handed : List (Nat × Nat × List FrameMessagesTuple)
  /-- History: of every push into a sink the executor, the tuple it works
  for, and the reply. -/
  pushed : List (Nat × Option FrameMessagesTuple × Bytes × Bytes)

/-- Before the first request. -/
def State.init : State where
  definers _ := ⟨[], 0, .receiving [], [], [], []⟩
  executors _ := ⟨0, .receiving [] [], [], Progress.init⟩
  handed := []
  pushed := []

def State.setDefiner (s : State) (d : Nat) (definer : Definer) : State :=
  { s with definers := Function.update s.definers d definer }

def State.setExecutor (s : State) (e : Nat) (executor : Executor) : State :=
  { s with executors := Function.update s.executors e executor }

/-- A definer hands a bucket over to an executor. -/
def State.handOver (s : State) (d : Nat) (definer : Definer) (e : Nat) (executor : Executor)
    (bucket : List FrameMessagesTuple) : State where
  definers := Function.update s.definers d definer
  executors := Function.update s.executors e executor
  handed := s.handed ++ [(d, e, bucket)]
  pushed := s.pushed

/-- An executor pushes a reply into the sink of a definer. -/
def State.push (s : State) (d : Nat) (definer : Definer) (e : Nat) (executor : Executor)
    (reply : Bytes × Bytes) : State where
  definers := Function.update s.definers d definer
  executors := Function.update s.executors e executor
  handed := s.handed
  pushed := s.pushed ++ [(e, executor.progress.subject, reply)]

/-! ## Steps -/

variable (P : Protobuf) (T : Threads)

/-- The tuples of a batch. -/
def Batch.tuples (batch : Batch) : List FrameMessagesTuple :=
  batch.requests.flatMap (decodePair P)

/-- The buckets of a batch. -/
def Batch.buckets (batch : Batch) : ExecutorTaskMap :=
  processForExecutor (batch.tuples P) T.noExecutorThreads batch.random

/-- Who takes a step. -/
inductive Actor where
  | client
  | definer (d : Nat)
  | executor (e : Nat)
deriving DecidableEq

/-- **One step of one thread**, or a request coming in. -/
inductive Step : State → Actor → State → Prop
  /-- The dealer passes a request to the worker socket of a definer. -/
  | request {s : State} {d : Nat} {definer : Definer} (hd : d < T.noDefinerThread)
      (h : s.definers d = definer) (request : Bytes × Bytes) :
    Step s .client (s.setDefiner d { definer with
      worker := definer.worker ++ [request]
      requests := definer.requests ++ [request] })
  /-- A definer receives the two parts of a request. -/
  | receiveRequest {s : State} {d : Nat} {definer : Definer} {messages : List Bytes}
      {request : Bytes × Bytes} {worker : List (Bytes × Bytes)}
      (h : s.definers d = definer) (hphase : definer.phase = .receiving messages)
      (hworker : definer.worker = request :: worker) :
    Step s (.definer d) (s.setDefiner d { definer with
      worker := worker
      phase := .receiving (messages ++ [request.1, request.2]) })
  /-- There has been no request. -/
  | noRequest {s : State} {d : Nat} {definer : Definer}
      (h : s.definers d = definer) (hphase : definer.phase = .receiving [])
      (hworker : definer.worker = []) :
    Step s (.definer d) (s.setDefiner d { definer with phase := .collecting [] })
  /-- A definer has drained its worker socket: `Store::_processMessages`
  decodes the parts and chooses the executors. -/
  | decode {s : State} {d : Nat} {definer : Definer} {messages : List Bytes}
      {requests : List (Bytes × Bytes)} {tuples : List FrameMessagesTuple}
      (h : s.definers d = definer) (hphase : definer.phase = .receiving messages)
      (hmessages : messages ≠ []) (hworker : definer.worker = [])
      (hrequests : pairs messages = some requests)
      (htuples : decodeMessages P messages true = some tuples) (random : Nat → Nat) :
    Step s (.definer d) (s.setDefiner d { definer with
      phase := .assigning (processForExecutor tuples T.noExecutorThreads random)
      batches := definer.batches ++ [⟨requests, random⟩] })
  /-- The decoder reads past the end of the parts. -/
  | decodeFails {s : State} {d : Nat} {definer : Definer} {messages : List Bytes}
      (h : s.definers d = definer) (hphase : definer.phase = .receiving messages)
      (hworker : definer.worker = []) (hfail : decodeMessages P messages true = none) :
    Step s (.definer d) (s.setDefiner d { definer with phase := .failed })
  /-- `Store::sendTaskToExecutor`, for any bucket that has not been sent. -/
  | assign {s : State} {d e : Nat} {definer : Definer} {executor : Executor}
      {bucket : List FrameMessagesTuple} {tasks : Multiset (Nat × List FrameMessagesTuple)}
      (hd : s.definers d = definer) (he : s.executors e = executor)
      (hphase : definer.phase = .assigning ((e, bucket) ::ₘ tasks)) :
    Step s (.definer d) (s.handOver d { definer with phase := .assigning tasks }
      e { executor with tasks := bucket ::ₘ executor.tasks } bucket)
  /-- All buckets have been sent. -/
  | assigned {s : State} {d : Nat} {definer : Definer}
      (h : s.definers d = definer) (hphase : definer.phase = .assigning 0) :
    Step s (.definer d) (s.setDefiner d { definer with phase := .collecting [] })
  /-- A definer receives the two parts of a reply. -/
  | receiveReply {s : State} {d : Nat} {definer : Definer} {messages : List Bytes}
      {reply : Bytes × Bytes} {sink : Multiset (Bytes × Bytes)}
      (h : s.definers d = definer) (hphase : definer.phase = .collecting messages)
      (hsink : definer.sink = reply ::ₘ sink) :
    Step s (.definer d) (s.setDefiner d { definer with
      sink := sink
      phase := .collecting (messages ++ [reply.1, reply.2]) })
  /-- A definer has drained its sink, and pairs the parts by position. -/
  | collected {s : State} {d : Nat} {definer : Definer} {messages : List Bytes}
      {replies : List (Bytes × Bytes)}
      (h : s.definers d = definer) (hphase : definer.phase = .collecting messages)
      (hsink : definer.sink = 0) (hreplies : pairs messages = some replies) :
    Step s (.definer d) (s.setDefiner d { definer with phase := .forwarding replies })
  /-- The pairing reads past the end of the parts. -/
  | collectFails {s : State} {d : Nat} {definer : Definer} {messages : List Bytes}
      (h : s.definers d = definer) (hphase : definer.phase = .collecting messages)
      (hsink : definer.sink = 0) (hfail : pairs messages = none) :
    Step s (.definer d) (s.setDefiner d { definer with phase := .failed })
  /-- A definer sends the two parts of a reply on its worker socket. -/
  | forward {s : State} {d : Nat} {definer : Definer} {reply : Bytes × Bytes}
      {replies : List (Bytes × Bytes)}
      (h : s.definers d = definer) (hphase : definer.phase = .forwarding (reply :: replies)) :
    Step s (.definer d) (s.setDefiner d { definer with
      phase := .forwarding replies
      sent := definer.sent ++ [reply] })
  /-- All replies have been sent on. -/
  | forwarded {s : State} {d : Nat} {definer : Definer}
      (h : s.definers d = definer) (hphase : definer.phase = .forwarding []) :
    Step s (.definer d) (s.setDefiner d { definer with phase := .receiving [] })
  /-- An executor receives a bucket, if it has not reached its limit. -/
  | receiveTask {s : State} {e : Nat} {executor : Executor}
      {messages : List (List FrameMessagesTuple)} {pending : List NdbTransactionState}
      {bucket : List FrameMessagesTuple} {tasks : Multiset (List FrameMessagesTuple)}
      (h : s.executors e = executor) (hphase : executor.phase = .receiving messages pending)
      (hlimit : messages.length < 1024) (htasks : executor.tasks = bucket ::ₘ tasks) :
    Step s (.executor e) (s.setExecutor e { executor with
      tasks := tasks
      phase := .receiving (messages ++ [bucket]) pending
      received := executor.received ++ [bucket] })
  /-- An executor has drained its task socket or reached its limit. -/
  | execute {s : State} {e : Nat} {executor : Executor}
      {messages : List (List FrameMessagesTuple)} {pending : List NdbTransactionState}
      (h : s.executors e = executor) (hphase : executor.phase = .receiving messages pending)
      (hmessages : messages ≠ []) (hready : executor.tasks = 0 ∨ messages.length = 1024) :
    Step s (.executor e) (s.setExecutor e { executor with
      phase := .running (executeBatch P messages pending) })
  /-- An executor makes a call that is not a reply, and gets any answer. -/
  | call {s : State} {e : Nat} {executor : Executor} {c : Call}
      {k : Answer c → Exec (List NdbTransactionState)}
      (h : s.executors e = executor) (hphase : executor.phase = .running (.call c k))
      (hc : ∀ identifier bytes, c ≠ .send identifier bytes) (r : Answer c) :
    Step s (.executor e) (s.setExecutor e { executor with
      phase := .running (k r)
      progress := executor.progress.after c })
  /-- An executor pushes a reply into the sink it is connected to. -/
  | send {s : State} {e : Nat} {executor : Executor} {definer : Definer}
      {identifier bytes : Bytes} {k : Unit → Exec (List NdbTransactionState)}
      (he : s.executors e = executor) (hd : s.definers (e % T.noDefinerThread) = definer)
      (hphase : executor.phase = .running (.call (.send identifier bytes) k)) :
    Step s (.executor e) (s.push (e % T.noDefinerThread)
      { definer with sink := (identifier, bytes) ::ₘ definer.sink }
      e { executor with phase := .running (k ()) } (identifier, bytes))
  /-- The batch has come to its end. -/
  | finished {s : State} {e : Nat} {executor : Executor}
      {pending : List NdbTransactionState}
      (h : s.executors e = executor) (hphase : executor.phase = .running (.pure pending)) :
    Step s (.executor e) (s.setExecutor e { executor with phase := .receiving [] pending })

/-- The states the server reaches by steps of certain actors. -/
def ReachableBy (actors : Actor → Prop) (s : State) : Prop :=
  Relation.ReflTransGen (fun s s' => ∃ actor, actors actor ∧ Step P T s actor s')
    State.init s

/-- **The states of the server.** -/
def Reachable (s : State) : Prop := ReachableBy P T (fun _ => True) s

theorem ReachableBy.reachable {P : Protobuf} {T : Threads} {actors : Actor → Prop} {s : State}
    (h : ReachableBy P T actors s) : Reachable P T s :=
  Relation.ReflTransGen.mono (fun _ _ ⟨actor, _, hstep⟩ => ⟨actor, trivial, hstep⟩) _ _ h

/-! ## What is on its way -/

namespace DefinerPhase

/-- The parts received from the worker socket. -/
def received : DefinerPhase → List Bytes
  | .receiving messages => messages
  | _ => []

/-- The buckets that are still to be sent. -/
def unsent : DefinerPhase → Multiset (Nat × List FrameMessagesTuple)
  | .assigning tasks => tasks
  | _ => 0

/-- The parts received from the sink. -/
def collected : DefinerPhase → List Bytes
  | .collecting messages => messages
  | _ => []

/-- The replies that are still to be sent on. -/
def leaving : DefinerPhase → List (Bytes × Bytes)
  | .forwarding replies => replies
  | _ => []

end DefinerPhase

/-- The buckets a definer has handed over, with their executors. -/
def State.handedBy (s : State) (d : Nat) : List (Nat × List FrameMessagesTuple) :=
  s.handed.filterMap (fun h => if h.1 = d then some h.2 else none)

/-- The buckets an executor has been handed. -/
def State.handedTo (s : State) (e : Nat) : List (List FrameMessagesTuple) :=
  s.handed.filterMap (fun h => if h.2.1 = e then some h.2.2 else none)

/-- The replies an executor has pushed, with the tuples it worked for. -/
def State.pushedBy (s : State) (e : Nat) :
    List (Option FrameMessagesTuple × Bytes × Bytes) :=
  s.pushed.filterMap (fun p => if p.1 = e then some p.2 else none)

/-- The replies pushed into the sink of a definer. -/
def State.pushedTo (s : State) (d : Nat) : List (Bytes × Bytes) :=
  s.pushed.filterMap (fun p => if p.1 % T.noDefinerThread = d then some p.2.2 else none)

/-- What the router delivers to a client from a worker socket. -/
def Definer.delivered (definer : Definer) (client : Bytes) : List Bytes :=
  definer.sent.filterMap (fun reply => if reply.1 = client then some reply.2 else none)

/-! ## The invariant -/

/-- **The invariant of a definer**, given the buckets it has handed over
and the replies it has been sent. -/
structure DefinerInv (definer : Definer) (handed : List (Nat × List FrameMessagesTuple))
    (pushed : List (Bytes × Bytes)) : Prop where
  /-- Every request is in a batch, has been received, or waits. -/
  requests : ∃ received, definer.phase.received = flat received
    ∧ definer.requests = definer.batches.flatMap Batch.requests ++ received ++ definer.worker
  /-- Every bucket has been handed over or is still to be sent. -/
  buckets : (definer.batches.flatMap (Batch.buckets P T) :
      Multiset (Nat × List FrameMessagesTuple)) = definer.phase.unsent + handed
  /-- Every reply waits, has been received, is still to be sent on, or has
  been sent. -/
  replies : ∃ collected, definer.phase.collected = flat collected
    ∧ (pushed : Multiset (Bytes × Bytes))
      = definer.sink + collected + definer.phase.leaving + definer.sent
  not_failed : definer.phase ≠ .failed

/-- How far an executor has got: what remains of what it has received. -/
inductive Remaining (progress : Progress) : ExecutorPhase → List FrameMessagesTuple → Prop
  | receiving {messages : List (List FrameMessagesTuple)} {pending : List NdbTransactionState}
      (h : PendingOf progress pending) :
    Remaining progress (.receiving messages pending) messages.flatten
  | running {program : Exec (List NdbTransactionState)} {remaining : List FrameMessagesTuple}
      (h : Follows P (fun s' pending => s'.2 = [] ∧ PendingOf s'.1 pending)
        (progress, remaining) program) :
    Remaining progress (.running program) remaining

/-- **The invariant of an executor**, given the buckets it has been handed
and the replies it has pushed. -/
structure ExecutorInv (executor : Executor) (handed : List (List FrameMessagesTuple))
    (pushed : List (Option FrameMessagesTuple × Bytes × Bytes)) : Prop where
  /-- Every bucket has been received or waits. -/
  handed : (handed : Multiset (List FrameMessagesTuple))
    = executor.received + executor.tasks
  /-- Every tuple of a received bucket has been taken or remains. -/
  taken : ∃ remaining, executor.received.flatten = executor.progress.taken ++ remaining
    ∧ Remaining P executor.progress executor.phase remaining
  sound : executor.progress.Sound
  /-- Every reply is a reply to the tuple it was pushed for. -/
  replies : ∀ p ∈ pushed, ∃ t ∈ executor.progress.taken, p.1 = some t ∧ IsReplyTo P t p.2

/-- **The invariant of the server**: of each thread, with the history that
concerns it. -/
structure Inv (s : State) : Prop where
  definer : ∀ d, DefinerInv P T (s.definers d) (s.handedBy d) (s.pushedTo T d)
  executor : ∀ e, ExecutorInv P (s.executors e) (s.handedTo e) (s.pushedBy e)

variable {P T} {s : State}

theorem inv_init : Inv P T State.init where
  definer _ := ⟨⟨[], rfl, rfl⟩, rfl, ⟨[], rfl, rfl⟩, fun h => nomatch h⟩
  executor _ := ⟨rfl, ⟨[], rfl, .receiving (pendingOf_nil _)⟩, Progress.sound_init,
    fun _ h => absurd h List.not_mem_nil⟩

/-- A step of a definer that hands nothing over. -/
theorem Inv.setDefiner (h : Inv P T s) {d : Nat} {definer : Definer}
    (hd : DefinerInv P T definer (s.handedBy d) (s.pushedTo T d)) :
    Inv P T (s.setDefiner d definer) where
  definer :=
    (Function.forall_update_iff s.definers
      (fun d' x => DefinerInv P T x (s.handedBy d') (s.pushedTo T d'))).mpr
      ⟨hd, fun d' _ => h.definer d'⟩
  executor := h.executor

/-- A step of an executor that pushes nothing. -/
theorem Inv.setExecutor (h : Inv P T s) {e : Nat} {executor : Executor}
    (he : ExecutorInv P executor (s.handedTo e) (s.pushedBy e)) :
    Inv P T (s.setExecutor e executor) where
  definer := h.definer
  executor :=
    (Function.forall_update_iff s.executors
      (fun e' x => ExecutorInv P x (s.handedTo e') (s.pushedBy e'))).mpr
      ⟨he, fun e' _ => h.executor e'⟩

theorem filterMap_append_ite {α β : Type} (f : α → Option β) (xs : List α) (a : α) :
    (xs ++ [a]).filterMap f = xs.filterMap f ++ (f a).toList := by
  rw [List.filterMap_append]
  cases h : f a <;> simp [h]

/-- **A step that adds to the history of one thread**: what holds of the
thread after it, and held of the others before, holds of all. -/
theorem forall_update_append {σ τ : Type} {I : Nat → σ → List τ → Prop} {f : Nat → σ}
    {before after : Nat → List τ} {a : Nat} {b : σ} {x : τ}
    (hafter : ∀ i, after i = before i ++ (if a = i then some x else none).toList)
    (hb : I a b (before a ++ [x])) (h : ∀ i, I i (f i) (before i)) :
    ∀ i, I i (Function.update f a b i) (after i) := by
  refine (Function.forall_update_iff f (fun i y => I i y (after i))).mpr ⟨?_, fun i hi => ?_⟩
  · rw [hafter, if_pos rfl]
    exact hb
  · rw [hafter, if_neg (Ne.symm hi), Option.toList_none, List.append_nil]
    exact h i

/-- A hand-over concerns one definer and one executor. -/
theorem Inv.handOver (h : Inv P T s) {d e : Nat} {definer : Definer} {executor : Executor}
    {bucket : List FrameMessagesTuple}
    (hd : DefinerInv P T definer (s.handedBy d ++ [(e, bucket)]) (s.pushedTo T d))
    (he : ExecutorInv P executor (s.handedTo e ++ [bucket]) (s.pushedBy e)) :
    Inv P T (s.handOver d definer e executor bucket) where
  definer :=
    forall_update_append (I := fun d' x handed => DefinerInv P T x handed (s.pushedTo T d'))
      (fun _ => filterMap_append_ite _ s.handed (d, e, bucket)) hd h.definer
  executor :=
    forall_update_append (I := fun e' x handed => ExecutorInv P x handed (s.pushedBy e'))
      (fun _ => filterMap_append_ite _ s.handed (d, e, bucket)) he h.executor

/-- A push concerns one executor and the definer it is connected to. -/
theorem Inv.push (h : Inv P T s) {e : Nat} {definer : Definer} {executor : Executor}
    {reply : Bytes × Bytes}
    (hd : DefinerInv P T definer (s.handedBy (e % T.noDefinerThread))
      (s.pushedTo T (e % T.noDefinerThread) ++ [reply]))
    (he : ExecutorInv P executor (s.handedTo e)
      (s.pushedBy e ++ [(executor.progress.subject, reply)])) :
    Inv P T (s.push (e % T.noDefinerThread) definer e executor reply) where
  definer :=
    forall_update_append (I := fun d' x pushed => DefinerInv P T x (s.handedBy d') pushed)
      (fun _ => filterMap_append_ite _ s.pushed (e, executor.progress.subject, reply))
      hd h.definer
  executor :=
    forall_update_append (I := fun e' x pushed => ExecutorInv P x (s.handedTo e') pushed)
      (fun _ => filterMap_append_ite _ s.pushed (e, executor.progress.subject, reply))
      he h.executor

/-- A definer that goes from one phase to another with nothing on its way
in either. -/
theorem DefinerInv.moveTo {definer : Definer} {phase : DefinerPhase}
    {handed : List (Nat × List FrameMessagesTuple)} {pushed : List (Bytes × Bytes)}
    (h : DefinerInv P T definer handed pushed)
    (hreceived : phase.received = definer.phase.received)
    (hunsent : phase.unsent = definer.phase.unsent)
    (hcollected : phase.collected = definer.phase.collected)
    (hleaving : phase.leaving = definer.phase.leaving) (hphase : phase ≠ .failed) :
    DefinerInv P T { definer with phase := phase } handed pushed := by
  obtain ⟨hrequests, hbuckets, hreplies, -⟩ := h
  rw [← hreceived] at hrequests
  rw [← hunsent] at hbuckets
  rw [← hcollected, ← hleaving] at hreplies
  exact ⟨hrequests, hbuckets, hreplies, hphase⟩

/-- What is added at the end of a history is added to it as a bag. -/
theorem coe_concat {α : Type} (l : List α) (a : α) :
    ((l ++ [a] : List α) : Multiset α) = a ::ₘ (l : Multiset α) :=
  Multiset.coe_eq_coe.mpr (List.perm_append_singleton a l)

/-- What a batch runs as conforms to the monitor. -/
theorem Remaining.execute {progress : Progress} {remaining : List FrameMessagesTuple}
    {messages : List (List FrameMessagesTuple)} {pending : List NdbTransactionState}
    (h : Remaining P progress (.receiving messages pending) remaining)
    (hsound : progress.Sound) :
    Remaining P progress (.running (executeBatch P messages pending)) remaining := by
  cases h with
  | receiving hpending =>
    refine .running ((conforms_executeBatch ⟨rfl, rfl, hsound, hpending⟩).mono ?_)
    exact fun s' left h => ⟨h.remaining_eq, h.pendingOf⟩

/-- A call is allowed. It takes the next tuple, or none. -/
theorem Remaining.call {progress : Progress} {remaining : List FrameMessagesTuple} {c : Call}
    {k : Answer c → Exec (List NdbTransactionState)}
    (h : Remaining P progress (.running (.call c k)) remaining) (r : Answer c) :
    progress.allows P remaining c
      ∧ progress.taken ++ remaining = (progress.after c).taken ++ remainingAfter remaining c
      ∧ Remaining P (progress.after c) (.running (k r)) (remainingAfter remaining c) := by
  cases h with
  | running hf =>
    refine ⟨hf.1, ?_, .running (hf.2 r)⟩
    cases c with
    | take messagesTuple =>
      have hhead : remaining.head? = some messagesTuple := hf.1
      cases remaining with
      | nil => exact absurd hhead (by simp)
      | cons t rest =>
        rw [← Option.some.inj hhead]
        exact List.append_cons _ _ _
    | _ => rfl

/-! ## The steps of a definer -/

section DefinerSteps

variable {definer : Definer} {handed : List (Nat × List FrameMessagesTuple)}
  {pushed : List (Bytes × Bytes)} (h : DefinerInv P T definer handed pushed)

include h

theorem DefinerInv.request (request : Bytes × Bytes) :
    DefinerInv P T { definer with
      worker := definer.worker ++ [request]
      requests := definer.requests ++ [request] } handed pushed := by
  obtain ⟨received, hreceived, hrequests⟩ := h.requests
  refine ⟨⟨received, hreceived, ?_⟩, h.buckets, h.replies, h.not_failed⟩
  show definer.requests ++ [request] = _ ++ (definer.worker ++ [request])
  rw [hrequests, List.append_assoc]

theorem DefinerInv.receiveRequest {messages : List Bytes} {request : Bytes × Bytes}
    {worker : List (Bytes × Bytes)} (hphase : definer.phase = .receiving messages)
    (hworker : definer.worker = request :: worker) :
    DefinerInv P T { definer with
      worker := worker
      phase := .receiving (messages ++ [request.1, request.2]) } handed pushed := by
  obtain ⟨⟨received, hreceived, hrequests⟩, hbuckets, hreplies, -⟩ := h
  rw [hphase] at hreceived hbuckets hreplies
  refine ⟨⟨received ++ [request], ?_, ?_⟩, hbuckets, hreplies, fun h => nomatch h⟩
  · show messages ++ [request.1, request.2] = _
    rw [flat_append, ← hreceived]
    rfl
  · rw [hrequests, hworker]
    simp

/-- The parts a definer has received are those of requests, and so are paired
as they were sent. -/
theorem DefinerInv.decode {messages : List Bytes} {requests : List (Bytes × Bytes)}
    {tuples : List FrameMessagesTuple} (hphase : definer.phase = .receiving messages)
    (hpairs : pairs messages = some requests)
    (htuples : decodeMessages P messages true = some tuples) (random : Nat → Nat) :
    DefinerInv P T { definer with
      phase := .assigning (processForExecutor tuples T.noExecutorThreads random)
      batches := definer.batches ++ [⟨requests, random⟩] } handed pushed := by
  obtain ⟨⟨received, hreceived, hrequests⟩, hbuckets, hreplies, -⟩ := h
  rw [hphase] at hreceived hbuckets hreplies
  have hflat : messages = flat received := hreceived
  rw [hflat, pairs_flat] at hpairs
  obtain rfl := Option.some.inj hpairs
  rw [hflat, decodeMessages_flat] at htuples
  obtain rfl := Option.some.inj htuples
  refine ⟨⟨[], rfl, ?_⟩, ?_, hreplies, fun h => nomatch h⟩
  · rw [hrequests, List.flatMap_append]
    simp
  · rw [List.flatMap_append, ← Multiset.coe_add, hbuckets]
    show 0 + (handed : Multiset (Nat × List FrameMessagesTuple)) + _ = _
    rw [zero_add, add_comm, List.flatMap_singleton]
    rfl

/-- The decoder does not read past the end. -/
theorem DefinerInv.decodeMessages_ne_none {messages : List Bytes}
    (hphase : definer.phase = .receiving messages) : decodeMessages P messages true ≠ none := by
  obtain ⟨received, hreceived, -⟩ := h.requests
  rw [hphase] at hreceived
  have hflat : messages = flat received := hreceived
  rw [hflat, decodeMessages_flat]
  exact Option.some_ne_none _

theorem DefinerInv.assign {e : Nat} {bucket : List FrameMessagesTuple}
    {tasks : Multiset (Nat × List FrameMessagesTuple)}
    (hphase : definer.phase = .assigning ((e, bucket) ::ₘ tasks)) :
    DefinerInv P T { definer with phase := .assigning tasks } (handed ++ [(e, bucket)])
      pushed := by
  obtain ⟨hrequests, hbuckets, hreplies, -⟩ := h
  rw [hphase] at hrequests hbuckets hreplies
  refine ⟨hrequests, ?_, hreplies, fun h => nomatch h⟩
  rw [hbuckets, coe_concat, Multiset.add_cons]
  exact Multiset.cons_add _ _ _

theorem DefinerInv.receiveReply {messages : List Bytes} {reply : Bytes × Bytes}
    {sink : Multiset (Bytes × Bytes)} (hphase : definer.phase = .collecting messages)
    (hsink : definer.sink = reply ::ₘ sink) :
    DefinerInv P T { definer with
      sink := sink
      phase := .collecting (messages ++ [reply.1, reply.2]) } handed pushed := by
  obtain ⟨hrequests, hbuckets, ⟨collected, hcollected, hreplies⟩, -⟩ := h
  rw [hphase] at hrequests hbuckets hcollected hreplies
  refine ⟨hrequests, hbuckets, ⟨collected ++ [reply], ?_, ?_⟩, fun h => nomatch h⟩
  · show messages ++ [reply.1, reply.2] = _
    rw [flat_append, ← hcollected]
    rfl
  · rw [hreplies, hsink, coe_concat]
    simp only [Multiset.cons_add, Multiset.add_cons]
    rfl

/-- The parts a definer has collected are those of replies. -/
theorem DefinerInv.collected {messages : List Bytes} {replies : List (Bytes × Bytes)}
    (hphase : definer.phase = .collecting messages) (hpairs : pairs messages = some replies) :
    DefinerInv P T { definer with phase := .forwarding replies } handed pushed := by
  obtain ⟨hrequests, hbuckets, ⟨collected, hcollected, hreplies⟩, -⟩ := h
  rw [hphase] at hrequests hbuckets hcollected hreplies
  have hflat : messages = flat collected := hcollected
  rw [hflat, pairs_flat] at hpairs
  obtain rfl := Option.some.inj hpairs
  refine ⟨hrequests, hbuckets, ⟨[], rfl, ?_⟩, fun h => nomatch h⟩
  rw [hreplies]
  simp [DefinerPhase.leaving]

/-- The pairing does not read past the end. -/
theorem DefinerInv.pairs_ne_none {messages : List Bytes}
    (hphase : definer.phase = .collecting messages) : pairs messages ≠ none := by
  obtain ⟨collected, hcollected, -⟩ := h.replies
  rw [hphase] at hcollected
  have hflat : messages = flat collected := hcollected
  rw [hflat, pairs_flat]
  exact Option.some_ne_none _

theorem DefinerInv.forward {reply : Bytes × Bytes} {replies : List (Bytes × Bytes)}
    (hphase : definer.phase = .forwarding (reply :: replies)) :
    DefinerInv P T { definer with
      phase := .forwarding replies
      sent := definer.sent ++ [reply] } handed pushed := by
  obtain ⟨hrequests, hbuckets, ⟨collected, hcollected, hreplies⟩, -⟩ := h
  rw [hphase] at hrequests hbuckets hcollected hreplies
  refine ⟨hrequests, hbuckets, ⟨collected, hcollected, ?_⟩, fun h => nomatch h⟩
  rw [hreplies, coe_concat]
  simp only [DefinerPhase.leaving, ← Multiset.cons_coe, Multiset.cons_add, Multiset.add_cons]

/-- A reply has been pushed into the sink. -/
theorem DefinerInv.push (reply : Bytes × Bytes) :
    DefinerInv P T { definer with sink := reply ::ₘ definer.sink } handed
      (pushed ++ [reply]) := by
  obtain ⟨collected, hcollected, hreplies⟩ := h.replies
  refine ⟨h.requests, h.buckets, ⟨collected, hcollected, ?_⟩, h.not_failed⟩
  rw [coe_concat, hreplies]
  simp only [Multiset.cons_add]

end DefinerSteps

/-! ## The steps of an executor -/

section ExecutorSteps

variable {executor : Executor} {handed : List (List FrameMessagesTuple)}
  {pushed : List (Option FrameMessagesTuple × Bytes × Bytes)}
  (h : ExecutorInv P executor handed pushed)

include h

/-- A bucket has been pushed into the task socket. -/
theorem ExecutorInv.assign (bucket : List FrameMessagesTuple) :
    ExecutorInv P { executor with tasks := bucket ::ₘ executor.tasks } (handed ++ [bucket])
      pushed := by
  refine ⟨?_, h.taken, h.sound, h.replies⟩
  rw [coe_concat, h.handed, Multiset.add_cons]

theorem ExecutorInv.receiveTask {messages : List (List FrameMessagesTuple)}
    {pending : List NdbTransactionState} {bucket : List FrameMessagesTuple}
    {tasks : Multiset (List FrameMessagesTuple)}
    (hphase : executor.phase = .receiving messages pending)
    (htasks : executor.tasks = bucket ::ₘ tasks) :
    ExecutorInv P { executor with
      tasks := tasks
      phase := .receiving (messages ++ [bucket]) pending
      received := executor.received ++ [bucket] } handed pushed := by
  obtain ⟨hhanded, ⟨remaining, htaken, hremaining⟩, hsound, hanswers⟩ := h
  rw [hphase] at hremaining
  cases hremaining with
  | receiving hpending =>
    refine ⟨?_, ⟨(messages ++ [bucket]).flatten, ?_, .receiving hpending⟩, hsound, hanswers⟩
    · rw [hhanded, htasks, coe_concat, Multiset.add_cons, Multiset.cons_add]
    · rw [List.flatten_append, List.flatten_append, htaken, List.append_assoc]

theorem ExecutorInv.execute {messages : List (List FrameMessagesTuple)}
    {pending : List NdbTransactionState}
    (hphase : executor.phase = .receiving messages pending) :
    ExecutorInv P { executor with phase := .running (executeBatch P messages pending) } handed
      pushed := by
  obtain ⟨hhanded, ⟨remaining, htaken, hremaining⟩, hsound, hanswers⟩ := h
  rw [hphase] at hremaining
  exact ⟨hhanded, ⟨remaining, htaken, hremaining.execute hsound⟩, hsound, hanswers⟩

theorem ExecutorInv.call {c : Call} {k : Answer c → Exec (List NdbTransactionState)}
    (hphase : executor.phase = .running (.call c k)) (r : Answer c) :
    ExecutorInv P { executor with
      phase := .running (k r)
      progress := executor.progress.after c } handed pushed := by
  obtain ⟨hhanded, ⟨remaining, htaken, hremaining⟩, hsound, hanswers⟩ := h
  rw [hphase] at hremaining
  obtain ⟨hallows, heq, hremaining'⟩ := hremaining.call r
  refine ⟨hhanded, ⟨_, htaken.trans heq, hremaining'⟩, hsound.after hallows, fun p hp => ?_⟩
  obtain ⟨t, ht, hto⟩ := hanswers p hp
  exact ⟨t, Progress.mem_taken_after ht c, hto⟩

/-- A reply that is pushed is one to the tuple the executor works for. -/
theorem ExecutorInv.send {identifier bytes : Bytes}
    {k : Unit → Exec (List NdbTransactionState)}
    (hphase : executor.phase = .running (.call (.send identifier bytes) k)) :
    ExecutorInv P { executor with phase := .running (k ()) } handed
      (pushed ++ [(executor.progress.subject, identifier, bytes)]) := by
  obtain ⟨hhanded, ⟨remaining, htaken, hremaining⟩, hsound, hanswers⟩ := h
  rw [hphase] at hremaining
  obtain ⟨⟨t, ht, hto⟩, heq, hremaining'⟩ := hremaining.call ()
  refine ⟨hhanded, ⟨remaining, htaken, hremaining'⟩, hsound, fun p hp => ?_⟩
  rcases List.mem_append.mp hp with hp | hp
  · exact hanswers p hp
  · rw [List.mem_singleton.mp hp]
    exact ⟨t, hsound.subject t ht, ht, hto⟩

theorem ExecutorInv.finished {pending : List NdbTransactionState}
    (hphase : executor.phase = .running (.pure pending)) :
    ExecutorInv P { executor with phase := .receiving [] pending } handed pushed := by
  obtain ⟨hhanded, ⟨remaining, htaken, hremaining⟩, hsound, hanswers⟩ := h
  rw [hphase] at hremaining
  cases hremaining with
  | running hf =>
    obtain ⟨rfl, hpending⟩ : remaining = [] ∧ PendingOf executor.progress pending := hf
    exact ⟨hhanded, ⟨[], htaken, .receiving hpending⟩, hsound, hanswers⟩

end ExecutorSteps

/-! ## One step -/

/-- **The step lemma**: each step is one of a definer or an executor, or of
both. -/
theorem Inv.step {s' : State} {actor : Actor} (hI : Inv P T s) (h : Step P T s actor s') :
    Inv P T s' := by
  have hdefiner : ∀ {d definer}, s.definers d = definer →
      DefinerInv P T definer (s.handedBy d) (s.pushedTo T d) := fun h => h ▸ hI.definer _
  have hexecutor : ∀ {e executor}, s.executors e = executor →
      ExecutorInv P executor (s.handedTo e) (s.pushedBy e) := fun h => h ▸ hI.executor _
  cases h with
  | request hd h request => exact hI.setDefiner ((hdefiner h).request request)
  | receiveRequest h hphase hworker =>
    exact hI.setDefiner ((hdefiner h).receiveRequest hphase hworker)
  | noRequest h hphase hworker =>
    refine hI.setDefiner ((hdefiner h).moveTo ?_ ?_ ?_ ?_ (fun h => nomatch h))
      <;> rw [hphase] <;> rfl
  | decode h hphase hmessages hworker hpairs htuples random =>
    exact hI.setDefiner ((hdefiner h).decode hphase hpairs htuples random)
  | decodeFails h hphase hworker hfail =>
    exact absurd hfail ((hdefiner h).decodeMessages_ne_none hphase)
  | assign hd he hphase =>
    exact hI.handOver ((hdefiner hd).assign hphase) ((hexecutor he).assign _)
  | assigned h hphase =>
    refine hI.setDefiner ((hdefiner h).moveTo ?_ ?_ ?_ ?_ (fun h => nomatch h))
      <;> rw [hphase] <;> rfl
  | receiveReply h hphase hsink => exact hI.setDefiner ((hdefiner h).receiveReply hphase hsink)
  | collected h hphase hsink hpairs =>
    exact hI.setDefiner ((hdefiner h).collected hphase hpairs)
  | collectFails h hphase hsink hfail =>
    exact absurd hfail ((hdefiner h).pairs_ne_none hphase)
  | forward h hphase => exact hI.setDefiner ((hdefiner h).forward hphase)
  | forwarded h hphase =>
    refine hI.setDefiner ((hdefiner h).moveTo ?_ ?_ ?_ ?_ (fun h => nomatch h))
      <;> rw [hphase] <;> rfl
  | receiveTask h hphase hlimit htasks =>
    exact hI.setExecutor ((hexecutor h).receiveTask hphase htasks)
  | execute h hphase hmessages hready => exact hI.setExecutor ((hexecutor h).execute hphase)
  | call h hphase hc r => exact hI.setExecutor ((hexecutor h).call hphase r)
  | send he hd hphase =>
    exact hI.push ((hdefiner hd).push _) ((hexecutor he).send hphase)
  | finished h hphase => exact hI.setExecutor ((hexecutor h).finished hphase)

/-- **The run lemma.** -/
theorem Reachable.inv (h : Reachable P T s) : Inv P T s := by
  induction h with
  | refl => exact inv_init
  | tail _ hstep ih =>
    obtain ⟨actor, -, hstep⟩ := hstep
    exact ih.step hstep

end Pipeline

end VoloDB
