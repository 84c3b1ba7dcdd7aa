import VoloDB.Delivery

/-!
# Starting the server

`Store::run` starts the server transport and the executor threads, waits
until every executor has reported that it is ready, and only then connects
to NDB in `_initDB`, which ends with `NDBMessageExecutor::initialize`. The
wait makes sure that the MySQL connections are there before NDB is. It does
not keep the executors from going on: an executor reports and enters its
loop, and what it finds in its task socket it executes.

The model adds the main thread and the beginnings of the executor threads
to the server of `VoloDB.Pipeline`, whose definers run as soon as the
transport has been started and whose executors run once they are in their
loop. A request that comes in while `_initDB` connects can be executed with
no `Ndb` object there is (`early_dropStore`). If requests come in only once
`initialize` has run, nothing is executed before
(`notEarly_of_requests_wait`).
-/

namespace VoloDB

open Interaction FrameDecoder NDBMessageExecutor Stride

namespace Startup

open Pipeline (Threads Actor DefinerPhase ExecutorPhase)

/-! ## The threads -/

/-- Where the main thread is in `Store::run`. -/
inductive MainPhase where
  /-- Before `_serverTransport->start`. -/
  | begin
  /-- In the loop that starts the executor threads. -/
  | startExecutors (threadNo : Nat)
  /-- In `waitForExecutorsToInitialize`. -/
  | waiting
  /-- In `_initDB`. -/
  | initDB
  /-- `_isRunning`. -/
  | running
  /-- `_initDB` could not connect: `exit(EXIT_FAILURE)`. -/
  | exited
deriving DecidableEq

/-- Where an executor thread is in `Store::_executorWorkerThreadFunc`. -/
inductive ExecutorThread where
  | notStarted
  /-- Before `initMySQL`, whose failure is logged and no more. -/
  | initMySQL
  /-- Before its sockets are bound and connected. -/
  | sockets
  /-- Before `addExecutorInitializationCount`. -/
  | counting
  /-- In its loop. -/
  | looping
deriving DecidableEq

/-- **The process.** -/
structure State where
  main : MainPhase
  /-- The transport has been started. -/
  transport : Bool
  executor : Nat → ExecutorThread
  currentExecutorInitCount : Nat
  /-- `NDBMessageExecutor::initialize` has run. -/
  initialized : Bool
  server : Pipeline.State

/-- When `Store::run` is entered. -/
def State.init : State where
  main := .begin
  transport := false
  executor _ := .notStarted
  currentExecutorInitCount := 0
  initialized := false
  server := Pipeline.State.init

/-- Who can take a step in the server. -/
def State.Ready (s : State) : Actor → Prop
  | .client | .definer _ => s.transport = true
  | .executor e => s.executor e = .looping

variable (P : Protobuf) (T : Threads)

/-- **One step of the process**: of the start-up, or of an actor of the
server. -/
inductive Step : State → Option Actor → State → Prop
  | startTransport {s : State} (hmain : s.main = .begin) :
    Step s none { s with main := .startExecutors 0, transport := true }
  | startExecutor {s : State} {threadNo : Nat} (hmain : s.main = .startExecutors threadNo)
      (h : threadNo < T.noExecutorThreads) :
    Step s none { s with
      main := .startExecutors (threadNo + 1)
      executor := Function.update s.executor threadNo .initMySQL }
  | startedExecutors {s : State} (hmain : s.main = .startExecutors T.noExecutorThreads) :
    Step s none { s with main := .waiting }
  /-- The wait ends. -/
  | waited {s : State} (hmain : s.main = .waiting)
      (h : T.noExecutorThreads ≤ s.currentExecutorInitCount) :
    Step s none { s with main := .initDB }
  /-- `exit(EXIT_FAILURE)`. -/
  | exit {s : State} (hmain : s.main = .initDB) :
    Step s none { s with main := .exited }
  /-- `NDBMessageExecutor::initialize`. -/
  | initDB {s : State} (hmain : s.main = .initDB) :
    Step s none { s with main := .running, initialized := true }
  | initMySQL {s : State} {e : Nat} (hlive : s.main ≠ .exited)
      (h : s.executor e = .initMySQL) :
    Step s none { s with executor := Function.update s.executor e .sockets }
  | sockets {s : State} {e : Nat} (hlive : s.main ≠ .exited) (h : s.executor e = .sockets) :
    Step s none { s with executor := Function.update s.executor e .counting }
  | addExecutorInitializationCount {s : State} {e : Nat} (hlive : s.main ≠ .exited)
      (h : s.executor e = .counting) :
    Step s none { s with
      executor := Function.update s.executor e .looping
      currentExecutorInitCount := s.currentExecutorInitCount + 1 }
  | server {s : State} {actor : Actor} {server : Pipeline.State} (hlive : s.main ≠ .exited)
      (hready : s.Ready actor) (h : Pipeline.Step P T s.server actor server) :
    Step s (some actor) { s with server := server }

/-- **The states of the process.** -/
def Reachable (s : State) : Prop :=
  Relation.ReflTransGen (fun s s' => ∃ actor, Step P T s actor s') State.init s

/-- **Nothing is executed before its time**: as long as `initialize` has
not run, no executor is in `NDBMessageExecutor::execute`. -/
def NotEarly (s : State) : Prop :=
  s.initialized = false → ∀ e program, (s.server.executors e).phase ≠ .running program

/-! ## Without requests -/

/-- A definer with nothing to do. -/
structure QuietDefiner (definer : Pipeline.Definer) : Prop where
  worker : definer.worker = []
  sink : definer.sink = 0
  received : definer.phase.received = []
  unsent : definer.phase.unsent = 0
  collected : definer.phase.collected = []
  leaving : definer.phase.leaving = []

/-- **A server with nothing to do.** -/
structure Quiet (s : Pipeline.State) : Prop where
  definer : ∀ d, QuietDefiner (s.definers d)
  tasks : ∀ e, (s.executors e).tasks = 0
  executor : ∀ e, ∃ pending, (s.executors e).phase = .receiving [] pending

theorem quiet_init : Quiet Pipeline.State.init where
  definer _ := ⟨rfl, rfl, rfl, rfl, rfl, rfl⟩
  tasks _ := rfl
  executor _ := ⟨[], rfl⟩

variable {P T}

theorem Quiet.setDefiner {s : Pipeline.State} (hq : Quiet s) (d : Nat)
    {definer : Pipeline.Definer} (hd : QuietDefiner definer) : Quiet (s.setDefiner d definer) where
  definer :=
    (Function.forall_update_iff s.definers (fun _ x => QuietDefiner x)).mpr
      ⟨hd, fun d' _ => hq.definer d'⟩
  tasks := hq.tasks
  executor := hq.executor

/-- From one of its phases to the next, a definer without parts, buckets
and replies stays without them. -/
theorem QuietDefiner.moveTo {definer : Pipeline.Definer} (hq : QuietDefiner definer)
    {phase : DefinerPhase} (hreceived : phase.received = []) (hunsent : phase.unsent = 0)
    (hcollected : phase.collected = []) (hleaving : phase.leaving = []) :
    QuietDefiner { definer with phase := phase } :=
  ⟨hq.worker, hq.sink, hreceived, hunsent, hcollected, hleaving⟩

theorem QuietDefiner.received_eq_nil {definer : Pipeline.Definer} (hq : QuietDefiner definer)
    {messages : List Bytes} (hphase : definer.phase = .receiving messages) : messages = [] := by
  have hnil := hq.received
  rwa [hphase] at hnil

theorem QuietDefiner.collected_eq_nil {definer : Pipeline.Definer} (hq : QuietDefiner definer)
    {messages : List Bytes} (hphase : definer.phase = .collecting messages) :
    messages = [] := by
  have hnil := hq.collected
  rwa [hphase] at hnil

/-- An executor with nothing to do runs nothing. -/
theorem Quiet.not_running {s : Pipeline.State} (hq : Quiet s) {e : Nat}
    {program : Exec (List NdbTransactionState)} :
    (s.executors e).phase ≠ .running program := by
  intro hphase
  obtain ⟨pending, hreceiving⟩ := hq.executor e
  exact absurd (hphase.symm.trans hreceiving) (by simp)

/-- **Nothing comes from nothing**: without a request, the server keeps
having nothing to do. -/
theorem Quiet.step {s s' : Pipeline.State} {actor : Actor} (hq : Quiet s)
    (h : Pipeline.Step P T s actor s') (ha : actor ≠ .client) : Quiet s' := by
  have hdefiner : ∀ {d definer}, s.definers d = definer → QuietDefiner definer :=
    fun h => h ▸ hq.definer _
  cases h with
  | request => exact absurd rfl ha
  | receiveRequest h hphase hworker =>
    exact absurd ((hdefiner h).worker.symm.trans hworker) (by simp)
  | noRequest h hphase hworker =>
    exact hq.setDefiner _ ((hdefiner h).moveTo rfl rfl rfl rfl)
  | decode h hphase hmessages =>
    exact absurd ((hdefiner h).received_eq_nil hphase) hmessages
  | decodeFails h hphase hworker hfail =>
    rw [(hdefiner h).received_eq_nil hphase] at hfail
    exact absurd hfail (by simp [decodeMessages])
  | assign hd he hphase =>
    have hnil := (hdefiner hd).unsent
    rw [hphase] at hnil
    exact absurd hnil Multiset.cons_ne_zero
  | assigned h hphase => exact hq.setDefiner _ ((hdefiner h).moveTo rfl rfl rfl rfl)
  | receiveReply h hphase hsink =>
    exact absurd ((hdefiner h).sink.symm.trans hsink) Multiset.zero_ne_cons
  | collected h hphase hsink hreplies =>
    rw [(hdefiner h).collected_eq_nil hphase, pairs_nil] at hreplies
    exact hq.setDefiner _
      ((hdefiner h).moveTo rfl rfl rfl (Option.some.inj hreplies).symm)
  | collectFails h hphase hsink hfail =>
    rw [(hdefiner h).collected_eq_nil hphase, pairs_nil] at hfail
    exact absurd hfail (by simp)
  | forward h hphase =>
    have hnil := (hdefiner h).leaving
    rw [hphase] at hnil
    exact absurd hnil (List.cons_ne_nil _ _)
  | forwarded h hphase => exact hq.setDefiner _ ((hdefiner h).moveTo rfl rfl rfl rfl)
  | @receiveTask e executor messages pending bucket tasks h hphase hlimit htasks =>
    have hnil : executor.tasks = 0 := h ▸ hq.tasks e
    exact absurd (hnil.symm.trans htasks) Multiset.zero_ne_cons
  | @execute e executor messages pending h hphase hmessages =>
    obtain ⟨pending', hreceiving⟩ := hq.executor e
    rw [h, hphase] at hreceiving
    exact absurd (ExecutorPhase.receiving.inj hreceiving).1 hmessages
  | call h hphase => exact absurd (h ▸ hphase) hq.not_running
  | send he hd hphase => exact absurd (he ▸ hphase) hq.not_running
  | finished h hphase => exact absurd (h ▸ hphase) hq.not_running

/-! ## Runs whose requests wait -/

/-- A step of the process, at which a request comes in only if `initialize`
has run. -/
def StepOfWaiting (P : Protobuf) (T : Threads) (s s' : State) : Prop :=
  ∃ actor, Step P T s actor s' ∧ (actor = some .client → s.initialized = true)

/-- **The step lemma**: until `initialize` has run, the server has nothing
to do. -/
theorem quiet_of_stepOfWaiting {s s' : State} (hq : s.initialized = false → Quiet s.server)
    (h : StepOfWaiting P T s s') : s'.initialized = false → Quiet s'.server := by
  obtain ⟨actor, hstep, hwaits⟩ := h
  cases hstep with
  | initDB hmain => exact fun h => absurd h (by simp)
  | @server actor server hlive hready h =>
    intro hinit
    refine (hq hinit).step h (fun hclient => ?_)
    exact Bool.false_ne_true (hinit.symm.trans (hwaits (congrArg some hclient)))
  | _ => exact hq

/-- **If requests come in only once `initialize` has run, nothing is
executed before.** -/
theorem notEarly_of_requests_wait {s : State}
    (h : Relation.ReflTransGen (StepOfWaiting P T) State.init s) : NotEarly s := by
  have hq : s.initialized = false → Quiet s.server := by
    induction h with
    | refl => exact fun _ => quiet_init
    | tail _ hstep ih => exact quiet_of_stepOfWaiting ih hstep
  intro hinit e program hrunning
  obtain ⟨pending, hreceiving⟩ := (hq hinit).executor e
  exact absurd (hrunning.symm.trans hreceiving) (by simp)

/-! ## A request that does not wait -/

/-- The main thread is in `_initDB`, and the only executor in its loop. -/
def connecting (server : Pipeline.State) : State where
  main := .initDB
  transport := true
  executor := Function.update (fun _ => .notStarted) 0 .looping
  currentExecutorInitCount := 1
  initialized := false
  server := server

/-- The start-up gets there without a request. -/
theorem connecting_reached :
    Relation.ReflTransGen (StepOfWaiting P Pipeline.oneEach) State.init
      (connecting Pipeline.State.init) := by
  have hnone : ∀ {s s' : State}, Step P Pipeline.oneEach s none s' →
      StepOfWaiting P Pipeline.oneEach s s' :=
    fun h => ⟨none, h, fun h' => absurd h' (by simp)⟩
  have h₁ := Relation.ReflTransGen.single (hnone (.startTransport (s := State.init) rfl))
  have h₂ := h₁.tail (hnone (.startExecutor rfl Nat.one_pos))
  have h₃ := h₂.tail (hnone (.startedExecutors rfl))
  have h₄ := h₃.tail (hnone (.initMySQL (e := 0) (by simp) rfl))
  have h₅ := h₄.tail (hnone (.sockets (e := 0) (by simp) rfl))
  have h₆ := h₅.tail (hnone (.addExecutorInitializationCount (e := 0) (by simp) rfl))
  have h₇ := h₆.tail (hnone (.waited rfl (le_refl 1)))
  have heq : Function.update (Function.update (Function.update (Function.update
      (fun _ => ExecutorThread.notStarted) 0 .initMySQL) 0 .sockets) 0 .counting) 0 .looping
        = Function.update (fun _ => ExecutorThread.notStarted) 0 .looping := by
    simp only [Function.update_idem]
  unfold connecting
  rw [← heq]
  exact h₇

/-- The process after `initialize`. -/
def connected (server : Pipeline.State) : State :=
  { connecting server with main := .running, initialized := true }

/-- What the first definer, the first executor and the clients do, they do in
the process too. -/
theorem Step.ofServer {s : State} (hlive : s.main ≠ .exited) (htransport : s.transport = true)
    (hexecutor : s.executor 0 = .looping) {actor : Actor} (hfirst : actor.isFirst)
    {server : Pipeline.State} (h : Pipeline.Step P T s.server actor server) :
    Step P T s (some actor) { s with server := server } := by
  refine .server hlive ?_ h
  cases actor with
  | client => exact htransport
  | definer d => exact htransport
  | executor e =>
    rw [show e = 0 from hfirst]
    exact hexecutor

/-- What the server does while the main thread connects. -/
theorem reachable_connecting {server : Pipeline.State}
    (h : Pipeline.Reached P Pipeline.oneEach server) :
    Reachable P Pipeline.oneEach (connecting server) := by
  induction h with
  | refl =>
    exact Relation.ReflTransGen.mono (fun _ _ ⟨actor, hstep, _⟩ => ⟨actor, hstep⟩) _ _
      connecting_reached
  | tail _ hstep ih =>
    obtain ⟨actor, hfirst, hstep⟩ := hstep
    exact ih.tail ⟨some actor, .ofServer (by simp [connecting]) rfl rfl hfirst hstep⟩

/-- What it does once `initialize` has run. -/
theorem connected_reached {server : Pipeline.State}
    (h : Pipeline.Reached P Pipeline.oneEach server) :
    Relation.ReflTransGen (StepOfWaiting P Pipeline.oneEach) State.init (connected server) := by
  induction h with
  | refl => exact connecting_reached.tail ⟨none, .initDB rfl, fun h => absurd h (by simp)⟩
  | tail _ hstep ih =>
    obtain ⟨actor, hfirst, hstep⟩ := hstep
    exact ih.tail
      ⟨some actor, .ofServer (by simp [connected]) rfl rfl hfirst hstep, fun _ => rfl⟩

/-- Nothing is executed while the main thread connects, and the request that
comes in then is. -/
theorem notEarly_connecting :
    NotEarly (connecting Pipeline.State.init)
      ∧ (∃ program,
          ((connected Pipeline.dropStoreRunning).server.executors 0).phase = .running program)
      ∧ NotEarly (connected Pipeline.dropStoreRunning) :=
  ⟨notEarly_of_requests_wait (P := wireFormat) connecting_reached, ⟨_, rfl⟩,
    notEarly_of_requests_wait (connected_reached Pipeline.reached_dropStoreRunning)⟩

/-- **A request executed too early**: it comes in while the main thread is
in `_initDB`, and the executor runs it before `initialize` has. -/
theorem early_dropStore :
    ∃ s, Reachable wireFormat Pipeline.oneEach s ∧ ¬ NotEarly s :=
  ⟨connecting Pipeline.dropStoreRunning,
    reachable_connecting Pipeline.reached_dropStoreRunning,
    fun h => h rfl 0 _ rfl⟩

end Startup

end VoloDB
