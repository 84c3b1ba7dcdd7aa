import VoloDB.Delivery

/-!
# The numbers of threads

`main` reads two integers from the configuration and hands them to the
store, whose constructor takes an `unsigned short`; nothing checks them on
the way. In the store they are the number of definers and of executors: the
bounds of the loops that start the threads and build the matrix of task
sockets, and the divisors by which an executor finds the sink of its
replies and a definer an executor for a request.

What comes of a division by zero is modelled as nothing. The routing is in
order for all threads and requests exactly where the two numbers, as
`unsigned short`, are both positive or both zero, that is where 65536
divides both integers or neither (`routed_iff`). With both positive, the
pipeline has the threads it was described with (`ThreadCounts.threads`).
-/

namespace VoloDB

open NDBMessageProcessor

namespace Configuration

/-- `stoi` of a number: out of the range of `int` it throws, and `main`
ends. -/
def stoi (n : Int) : Option Int :=
  if -2147483648 ≤ n ∧ n ≤ 2147483647 then some n else none

/-- The conversion of an `int` to `unsigned short`. -/
def toUnsignedShort (n : Int) : Nat := (n % 65536).toNat

/-- `a % b`, or nothing where it divides by zero. -/
def remainder (a b : Nat) : Option Nat := if b = 0 then none else some (a % b)

/-- **The numbers of threads of a store.** -/
structure ThreadCounts where
  noDefinerThread : Nat
  noExecutorThreads : Nat
deriving DecidableEq

/-- **`main`**, from the two integers to the store it makes; or nothing,
where the server does not start. -/
def start (noDefinerThreads noExecutorThreads : Int) : Option ThreadCounts :=
  match stoi noDefinerThreads, stoi noExecutorThreads with
  | some definers, some executors =>
    some ⟨toUnsignedShort definers, toUnsignedShort executors⟩
  | _, _ => none

/-! ## The routing -/

namespace ThreadCounts

variable (c : ThreadCounts)

/-- `Store::createExecutorTaskSenderSockets`: a row for every definer, and
in it, for every executor, a socket connected to its task sink; here the
number of that sink. -/
def createExecutorTaskSenderSockets : List (List Nat) :=
  (List.range c.noDefinerThread).map (fun _ =>
    (List.range c.noExecutorThreads).map (fun executorThreadNo => executorThreadNo))

/-- `Store::getResponsibleExecutorTaskSenderSocket`, or nothing where there
is no such row or column. -/
def getResponsibleExecutorTaskSenderSocket (threadNo executorThreadNo : Nat) : Option Nat :=
  match c.createExecutorTaskSenderSockets[threadNo]? with
  | none => none
  | some row => row[executorThreadNo]?

/-- The reply sinks: one for each worker thread of the transport. -/
def sinks : List Nat := List.range c.noDefinerThread

/-- The sink an executor thread connects to in
`Store::_executorWorkerThreadFunc`. -/
def executorSink (threadNo : Nat) : Option Nat :=
  match remainder threadNo c.noDefinerThread with
  | none => none
  | some sink => c.sinks[sink]?

/-- `Store::_processMessages` of decoded tuples: the task sinks the buckets
are sent to. The numbers `rand` returns are those of `random`. -/
def processMessages (threadNo : Nat) (messagesList : List FrameMessagesTuple)
    (random : Nat → Nat) : Option (List (Nat × List FrameMessagesTuple)) :=
  match (List.range messagesList.length).mapM
      (fun i => remainder (random i) c.noExecutorThreads) with
  | none => none
  | some _ =>
    (processForExecutor messagesList c.noExecutorThreads random).mapM (fun key =>
      (c.getResponsibleExecutorTaskSenderSocket threadNo key.1).map (fun sink => (sink, key.2)))

/-- **What happens in a run of the server**, as far as the routing goes. -/
inductive Event where
  /-- An executor thread starts. -/
  | executor (threadNo : Nat)
  /-- A definer has decoded what it received. -/
  | request (threadNo : Nat) (messagesList : List FrameMessagesTuple) (random : Nat → Nat)

/-- The threads are those the loops of `Store::run` and
`ServerTransport::start` make. -/
def Possible : Event → Prop
  | .executor threadNo => threadNo < c.noExecutorThreads
  | .request threadNo _ _ => threadNo < c.noDefinerThread

/-- **The routing is in order**: no division by zero, and sockets and sinks
that exist. -/
def Routes : Event → Prop
  | .executor threadNo => (c.executorSink threadNo).isSome = true
  | .request threadNo messagesList random =>
    (c.processMessages threadNo messagesList random).isSome = true

instance (event : Event) : Decidable (c.Routes event) :=
  match event with
  | .executor threadNo => inferInstanceAs (Decidable ((c.executorSink threadNo).isSome = true))
  | .request threadNo messagesList random =>
    inferInstanceAs (Decidable ((c.processMessages threadNo messagesList random).isSome = true))

/-! ### Where it is in order -/

variable {c}

theorem executorSink_isSome (h : c.noDefinerThread ≠ 0) (threadNo : Nat) :
    (c.executorSink threadNo).isSome = true := by
  have hlt := Nat.mod_lt threadNo (Nat.pos_of_ne_zero h)
  simp [executorSink, remainder, h, sinks, hlt]

theorem getResponsible_isSome {threadNo executorThreadNo : Nat}
    (hd : threadNo < c.noDefinerThread) (he : executorThreadNo < c.noExecutorThreads) :
    c.getResponsibleExecutorTaskSenderSocket threadNo executorThreadNo
      = some executorThreadNo := by
  simp [getResponsibleExecutorTaskSenderSocket, createExecutorTaskSenderSockets, hd, he]

theorem mapM_isSome {α β : Type} {f : α → Option β} {xs : List α}
    (h : ∀ x ∈ xs, (f x).isSome = true) : (xs.mapM f).isSome = true := by
  induction xs with
  | nil => rfl
  | cons x xs ih =>
    rw [List.forall_mem_cons] at h
    obtain ⟨y, hy⟩ := Option.isSome_iff_exists.mp h.1
    obtain ⟨ys, hys⟩ := Option.isSome_iff_exists.mp (ih h.2)
    rw [List.mapM_cons, hy, hys]
    rfl

theorem processMessages_isSome (h : c.noExecutorThreads ≠ 0) {threadNo : Nat}
    (hd : threadNo < c.noDefinerThread) (messagesList : List FrameMessagesTuple)
    (random : Nat → Nat) : (c.processMessages threadNo messagesList random).isSome = true := by
  have hrandom : ((List.range messagesList.length).mapM
      (fun i => remainder (random i) c.noExecutorThreads)).isSome = true :=
    mapM_isSome (fun i _ => by simp [remainder, h])
  obtain ⟨numbers, hnumbers⟩ := Option.isSome_iff_exists.mp hrandom
  unfold processMessages
  rw [hnumbers]
  refine mapM_isSome (fun key hkey => ?_)
  have he := keys_processForExecutor_lt messagesList c.noExecutorThreads random
    (Nat.pos_of_ne_zero h) key.1 (List.mem_map_of_mem hkey)
  rw [getResponsible_isSome hd he]
  rfl

theorem routes_of_ne_zero (hd : c.noDefinerThread ≠ 0) (he : c.noExecutorThreads ≠ 0) :
    ∀ event, c.Possible event → c.Routes event
  | .executor threadNo, _ => executorSink_isSome hd threadNo
  | .request _ messagesList random, h => processMessages_isSome he h messagesList random

/-- Of a store without definers every executor thread divides by zero, and
of one without executors every definer does. -/
theorem routes_iff :
    (∀ event, c.Possible event → c.Routes event)
      ↔ (c.noDefinerThread = 0 ↔ c.noExecutorThreads = 0) := by
  by_cases hd : c.noDefinerThread = 0
  · by_cases he : c.noExecutorThreads = 0
    · -- there are no threads at all
      refine ⟨fun _ => ⟨fun _ => he, fun _ => hd⟩, fun _ event h => ?_⟩
      cases event with
      | executor threadNo => exact absurd (he ▸ h) (Nat.not_lt_zero threadNo)
      | request threadNo messagesList random =>
        exact absurd (hd ▸ h) (Nat.not_lt_zero threadNo)
    · refine ⟨fun h => ?_, fun h => absurd (h.mp hd) he⟩
      have h₀ := h (.executor 0) (Nat.pos_of_ne_zero he)
      simp [Routes, executorSink, remainder, hd] at h₀
  · by_cases he : c.noExecutorThreads = 0
    · refine ⟨fun h => ?_, fun h => absurd (h.mpr he) hd⟩
      have h₀ := h (.request 0 [⟨[], [], []⟩] (fun _ => 0)) (Nat.pos_of_ne_zero hd)
      simp [Routes, processMessages, remainder, he] at h₀
    · exact ⟨fun _ => ⟨fun h => absurd h hd, fun h => absurd h he⟩,
        fun _ => routes_of_ne_zero hd he⟩

end ThreadCounts

/-! ## The integers of the configuration -/

/-- The numbers of type `int`. -/
def IsInt (n : Int) : Prop := -2147483648 ≤ n ∧ n ≤ 2147483647

/-- **A configuration that works**: the server does not start, or in every
run of it the routing is in order throughout. -/
def Works (noDefinerThreads noExecutorThreads : Int) : Prop :=
  ∀ c ∈ start noDefinerThreads noExecutorThreads,
    ∀ run : List ThreadCounts.Event, (∀ event ∈ run, c.Possible event) →
      ∀ event ∈ run, c.Routes event

theorem toUnsignedShort_eq_zero (n : Int) : toUnsignedShort n = 0 ↔ 65536 ∣ n := by
  unfold toUnsignedShort
  omega

theorem start_of_isInt {noDefinerThreads noExecutorThreads : Int}
    (hd : IsInt noDefinerThreads) (he : IsInt noExecutorThreads) :
    start noDefinerThreads noExecutorThreads
      = some ⟨toUnsignedShort noDefinerThreads, toUnsignedShort noExecutorThreads⟩ := by
  unfold IsInt at hd he
  simp [start, stoi, hd, he]

/-- An integer that is too large, or too small, keeps the server from
starting. -/
theorem start_of_not_isInt {noDefinerThreads noExecutorThreads : Int}
    (h : ¬ (IsInt noDefinerThreads ∧ IsInt noExecutorThreads)) :
    start noDefinerThreads noExecutorThreads = none := by
  unfold start
  by_cases hd : IsInt noDefinerThreads
  · rw [show stoi noExecutorThreads = none from if_neg (fun he => h ⟨hd, he⟩)]
    cases stoi noDefinerThreads <;> rfl
  · rw [show stoi noDefinerThreads = none from if_neg hd]

/-- **The routing is in order exactly where 65536 divides both of the
integers or neither**, or one is too large to be read. -/
theorem routed_iff (noDefinerThreads noExecutorThreads : Int) :
    Works noDefinerThreads noExecutorThreads
      ↔ (IsInt noDefinerThreads → IsInt noExecutorThreads →
          ((65536 : Int) ∣ noDefinerThreads ↔ (65536 : Int) ∣ noExecutorThreads)) := by
  unfold Works
  rw [← and_imp]
  by_cases h : IsInt noDefinerThreads ∧ IsInt noExecutorThreads
  · have hroutes := ThreadCounts.routes_iff
      (c := ⟨toUnsignedShort noDefinerThreads, toUnsignedShort noExecutorThreads⟩)
    rw [toUnsignedShort_eq_zero, toUnsignedShort_eq_zero] at hroutes
    rw [start_of_isInt h.1 h.2, forall_prop_of_true h, ← hroutes]
    constructor
    · intro hworks event hevent
      exact hworks _ rfl [event] (by simpa using hevent) event (by simp)
    · intro hroutes c hc run hrun event hevent
      obtain rfl := Option.some.inj hc
      exact hroutes event (hrun event hevent)
  · rw [start_of_not_isInt h]
    exact iff_of_true (fun c hc => by simp at hc) (fun h' => absurd h' h)

/-- With five definers and 65536 executors, there are none of the latter,
and the first request divides by zero. -/
theorem not_works_multiple : ¬ Works 5 65536 := by
  intro h
  have h₀ := h ⟨5, 0⟩ (by decide) [.request 0 [⟨[], [], []⟩] (fun _ => 0)]
    (by simp [ThreadCounts.Possible]) _ List.mem_cons_self
  revert h₀
  decide

/-! ## The threads of the pipeline -/

open Pipeline

/-- The threads of a store that has some of either kind. -/
def ThreadCounts.threads (c : ThreadCounts) (hd : c.noDefinerThread ≠ 0)
    (he : c.noExecutorThreads ≠ 0) : Threads where
  noDefinerThread := c.noDefinerThread
  noExecutorThreads := c.noExecutorThreads
  definer_pos := Nat.pos_of_ne_zero hd
  executor_pos := Nat.pos_of_ne_zero he

/-- **A bucket that a definer hands over goes through a socket of the
matrix**, and the replies to it into a sink there is. -/
theorem ThreadCounts.handed_routed {P : Protobuf} {c : ThreadCounts}
    {hd : c.noDefinerThread ≠ 0} {he : c.noExecutorThreads ≠ 0} {s : State}
    (h : Inv P (c.threads hd he) s) {d e : Nat} {bucket : List FrameMessagesTuple}
    (hlt : d < c.noDefinerThread) (hb : (e, bucket) ∈ s.handedBy d) :
    c.getResponsibleExecutorTaskSenderSocket d e = some e
      ∧ (c.executorSink e).isSome = true := by
  obtain ⟨batch, -, hbucket⟩ := h.mem_batches hb
  have hkey := (distributed P (c.threads hd he) batch).keys_lt e
    (List.mem_map_of_mem (f := Prod.fst) hbucket)
  exact ⟨getResponsible_isSome hlt hkey, executorSink_isSome hd e⟩

end Configuration

end VoloDB
