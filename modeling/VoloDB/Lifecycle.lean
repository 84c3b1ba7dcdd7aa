import VoloDB.Pipeline

/-!
# Starting, stopping and destroying

A `ServerTransport` makes its context in the constructor, its main thread
in `start`, and its sockets and worker threads in that thread, which then
stays in the proxy between the sockets. `close` waits for the worker
threads, resets all of these, and joins the main thread. The destructor
closes again. A `Store` holds a transport, which `stop` resets, and two
arrays of `Ndb` objects that its destructor clears.

A step that goes through a component that was reset, or has not been made,
is modelled as that component. What goes wrong is that nothing is made
twice, no pointer is checked, and no one tells the main thread to leave its
proxy: `close` destroys the two sockets while the proxy is polling them, and
the context only after them. So a transport has to be started, a signal has
to have ended its proxy, and it must not be closed before it is destroyed
(`transportSafe_iff`). Destroying a store never goes well: the array of the
definers is not made any more, but it is cleared (`not_storeSafe`).
-/

namespace VoloDB

open Pipeline (Threads)

namespace Lifecycle

/-- What a step can go through. -/
inductive Component where
  | context | frontend | backend | mainThread | serverTransport | ndbDefiners
  | ndbExecutors
deriving DecidableEq, Repr

/-- Go through a component, which is there or not. -/
def deref (c : Component) (isThere : Bool) : Except Component Unit :=
  if isThere then .ok () else .error c

/-! ## The transport -/

/-- The steps of the main thread of a transport. -/
inductive MainStep where
  | frontend | backend
  /-- `Utils::setUnlimitedQueueLength` of the two sockets. -/
  | setUnlimitedQueueLength
  | bind
  /-- The loop that starts the worker threads, which make their sockets in
  the context. -/
  | workers
  /-- `zmq::proxy`, which polls the two sockets again and again. -/
  | proxy
deriving DecidableEq, Repr

/-- **The main thread**, in order. -/
def mainSteps : List MainStep :=
  [.frontend, .backend, .setUnlimitedQueueLength, .bind, .workers, .proxy]

/-- **`ServerTransport`**, as far as it makes and resets things. -/
structure ServerTransport where
  totalWorkerThreads : Nat
  context : Bool
  frontend : Bool
  backend : Bool
  workerThreads : Nat
  /-- The main thread, by the steps it has still to take. -/
  mainThread : Option (List MainStep)
  isStarted : Bool
deriving DecidableEq

namespace ServerTransport

/-- The constructor. -/
def new (totalWorkerThreads : Nat) : ServerTransport :=
  ⟨totalWorkerThreads, true, false, false, 0, none, false⟩

/-- A step of the main thread. -/
def mainStep (t : ServerTransport) : MainStep → Except Component ServerTransport
  | .frontend => do
    deref .context t.context
    return { t with frontend := true }
  | .backend => do
    deref .context t.context
    return { t with backend := true }
  | .setUnlimitedQueueLength => do
    deref .frontend t.frontend
    deref .backend t.backend
    return t
  | .bind => do
    deref .frontend t.frontend
    deref .backend t.backend
    return t
  | .workers => do
    if 0 < t.totalWorkerThreads then deref .context t.context
    return { t with workerThreads := t.workerThreads + t.totalWorkerThreads }
  | .proxy => do
    deref .frontend t.frontend
    deref .backend t.backend
    return t

/-- The next step of the main thread, if there is one. In the proxy it
stays. -/
def progress (t : ServerTransport) : Except Component ServerTransport :=
  match t.mainThread with
  | some (step :: steps) => do
    let t ← t.mainStep step
    return { t with mainThread := some (if step = .proxy then step :: steps else steps) }
  | _ => return t

/-- A signal is delivered to the main thread. `zmq_proxy` fails with `EINTR`
then, which is caught. -/
def interrupt (t : ServerTransport) : ServerTransport :=
  match t.mainThread with
  | some (.proxy :: steps) => { t with mainThread := some steps }
  | _ => t

/-- **`ServerTransport::start`.** -/
def start (t : ServerTransport) : ServerTransport :=
  if t.isStarted then t
  else { t with mainThread := some mainSteps, isStarted := true }

/-- `ServerTransport::cleanUp`. The steps the main thread has still to take
are taken while it is joined, and a proxy goes on with what is left of its
sockets. -/
def cleanUp (t : ServerTransport) : Except Component ServerTransport := do
  let t := { t with workerThreads := 0, backend := false, frontend := false, context := false }
  match t.mainThread with
  | none => deref .mainThread false; return t
  | some steps => do
    let t ← steps.foldlM mainStep t
    return { t with mainThread := none }

/-- **`ServerTransport::close`**, and the destructor. -/
def close (t : ServerTransport) : Except Component ServerTransport := do
  let t ← t.cleanUp
  return { t with isStarted := false }

end ServerTransport

/-- What happens to a transport: a call, or between two calls a step of its
main thread, or a signal to this. -/
inductive TransportEvent where
  | start | close | progress | interrupt
deriving DecidableEq, Repr

namespace ServerTransport

def step (t : ServerTransport) : TransportEvent → Except Component ServerTransport
  | .start => return t.start
  | .close => t.close
  | .progress => t.progress
  | .interrupt => return t.interrupt

/-- **The life of a transport** from some state on: events, and the
destructor. -/
def live (t : ServerTransport) (events : List TransportEvent) :
    Except Component ServerTransport :=
  events.foldlM step t >>= close

theorem live_cons (t : ServerTransport) (event : TransportEvent)
    (events : List TransportEvent) :
    t.live (event :: events) = t.step event >>= fun t => t.live events := by
  unfold live
  rw [List.foldlM_cons, bind_assoc]

end ServerTransport

/-- **The life of a transport goes well.** -/
def TransportSafe (totalWorkerThreads : Nat) (events : List TransportEvent) : Prop :=
  ∃ t, (ServerTransport.new totalWorkerThreads).live events = .ok t

/-- What brings the main thread behind a step: a signal behind the proxy. -/
def MainStep.ending : MainStep → TransportEvent
  | .proxy => .interrupt
  | _ => .progress

/-- **A proper life**: the transport is not closed, and after its start the
main thread comes to the proxy and is interrupted there. -/
def Proper (events : List TransportEvent) : Prop :=
  .close ∉ events ∧ (.start :: mainSteps.map MainStep.ending).Sublist events

instance (events : List TransportEvent) : Decidable (Proper events) :=
  inferInstanceAs (Decidable (_ ∧ _))

/-! ### The states of a transport -/

namespace ServerTransport

/-- After the start, with `k` steps of the main thread taken. -/
def started (n k : Nat) : ServerTransport :=
  ⟨n, true, decide (1 ≤ k), decide (2 ≤ k), if 5 ≤ k then n else 0,
    some (mainSteps.drop k), true⟩

/-- After it has been closed. -/
def closed (n : Nat) : ServerTransport := ⟨n, false, false, false, 0, none, false⟩

/-- Closed, and started once more. -/
def restarted (n : Nat) : ServerTransport :=
  ⟨n, false, false, false, 0, some mainSteps, true⟩

/-- What ends the next step of the main thread brings it behind the step, and
nothing else changes a transport that is not closed. -/
theorem step_started (n : Nat) {k : Nat} (hk : k ≤ 6) {event : TransportEvent}
    (hevent : event ≠ .close) :
    (started n k).step event = .ok (started n
      (if (mainSteps[k]?).map MainStep.ending = some event then k + 1 else k)) := by
  match k, event with
  | _, .close => exact absurd rfl hevent
  | 0, .start | 1, .start | 2, .start | 3, .start | 4, .start | 5, .start | 6, .start => rfl
  | 0, .interrupt | 1, .interrupt | 2, .interrupt | 3, .interrupt | 4, .interrupt
  | 5, .interrupt | 6, .interrupt => rfl
  | 0, .progress | 1, .progress | 2, .progress | 3, .progress | 5, .progress | 6, .progress => rfl
  | 4, .progress =>
    unfold step progress started mainStep
    by_cases hn : 0 < n
    · simp [mainSteps, hn, deref, MainStep.ending]
    · simp [mainSteps, hn, MainStep.ending]
      rfl
  | k + 7, _ => omega

theorem close_started_end (n : Nat) : (started n 6).close = .ok (closed n) := rfl

/-- A main thread that has not come to its end goes on in a transport that
has been reset. -/
theorem close_started (n : Nat) {k : Nat} (h : k < 6) :
    ∃ c, (started n k).close = .error c := by
  match k with
  | 0 | 1 | 2 | 3 | 5 => exact ⟨_, rfl⟩
  | 4 =>
    by_cases hn : 0 < n
    · exact ⟨.context, by
        simp [close, cleanUp, started, mainSteps, mainStep, hn, deref]; rfl⟩
    · exact ⟨.frontend, by
        simp [close, cleanUp, started, mainSteps, mainStep, hn, deref]; rfl⟩
  | k + 6 => omega

/-- **A transport that was closed does not come to a good end**: it cannot
be closed once more, and not be used once it is started. -/
theorem live_closed (n : Nat) (events : List TransportEvent) :
    (∃ c, (closed n).live events = .error c) ∧ ∃ c, (restarted n).live events = .error c := by
  induction events with
  | nil => exact ⟨⟨.mainThread, rfl⟩, ⟨.context, rfl⟩⟩
  | cons event events ih =>
    rw [live_cons, live_cons]
    cases event with
    | start => exact ⟨ih.2, ih.2⟩
    | close => exact ⟨⟨.mainThread, rfl⟩, ⟨.context, rfl⟩⟩
    | progress => exact ⟨ih.1, ⟨.context, rfl⟩⟩
    | interrupt => exact ih

/-- A started transport that is closed does not come to a good end. -/
theorem live_close_started (n : Nat) {k : Nat} (hk : k ≤ 6) (events : List TransportEvent) :
    ∃ c, (started n k).live (.close :: events) = .error c := by
  rw [live_cons, step]
  rcases Nat.lt_or_eq_of_le hk with h | rfl
  · obtain ⟨c, hc⟩ := close_started n h
    exact ⟨c, by rw [hc]; rfl⟩
  · rw [close_started_end]
    exact (live_closed n events).1

/-- What is left to be found behind the first element of a list. -/
theorem sublist_cons_iff_tail {α : Type} [DecidableEq α] {l l' : List α} {a : α} :
    l.Sublist (a :: l') ↔ (if l.head? = some a then l.tail else l).Sublist l' := by
  cases l with
  | nil => exact iff_of_true (List.nil_sublist _) (List.nil_sublist _)
  | cons b l =>
    by_cases h : b = a
    · subst h
      rw [List.head?_cons, if_pos rfl]
      exact List.cons_sublist_cons
    · rw [List.head?_cons, if_neg (fun heq => h (Option.some.inj heq))]
      exact ⟨List.Sublist.of_cons_of_ne h, .cons a⟩

/-- A started transport lives well if it is not closed and its main thread
comes to its end. -/
theorem live_started (n : Nat) {k : Nat} (hk : k ≤ 6) (events : List TransportEvent) :
    (∃ t, (started n k).live events = .ok t)
      ↔ .close ∉ events ∧ ((mainSteps.drop k).map MainStep.ending).Sublist events := by
  induction events generalizing k with
  | nil =>
    show (∃ t, (started n k).close = .ok t) ↔ _
    rw [List.sublist_nil, List.map_eq_nil_iff, List.drop_eq_nil_iff, and_iff_right List.not_mem_nil]
    rcases Nat.lt_or_eq_of_le hk with h | rfl
    · obtain ⟨c, hc⟩ := close_started n h
      rw [hc]
      exact iff_of_false (fun ⟨t, ht⟩ => nomatch ht) (Nat.not_le.mpr h)
    · exact iff_of_true ⟨_, close_started_end n⟩ (Nat.le_refl 6)
  | cons event events ih =>
    by_cases hevent : event = .close
    · subst hevent
      obtain ⟨c, hc⟩ := live_close_started n hk events
      rw [hc]
      exact iff_of_false (fun ⟨t, ht⟩ => nomatch ht) (fun h => h.1 List.mem_cons_self)
    · have hnext : (if (mainSteps[k]?).map MainStep.ending = some event then k + 1 else k) ≤ 6 := by
        split
        · next h =>
          obtain ⟨step, hstep, -⟩ := Option.map_eq_some_iff.mp h
          exact (List.getElem?_eq_some_iff.mp hstep).1
        · exact hk
      rw [live_cons, step_started n hk hevent, sublist_cons_iff_tail, List.head?_map,
        List.head?_drop, ← List.map_tail, List.tail_drop]
      refine (ih hnext).trans (and_congr ?_ ?_)
      · rw [List.mem_cons, not_or]
        exact (and_iff_right (fun h => hevent h.symm)).symm
      · split <;> rfl

end ServerTransport

/-- **A transport lives well exactly if its life is proper.** -/
theorem transportSafe_iff (n : Nat) (events : List TransportEvent) :
    TransportSafe n events ↔ Proper events := by
  unfold TransportSafe Proper
  induction events with
  | nil => exact iff_of_false (fun ⟨t, h⟩ => nomatch h) (fun h => nomatch h.2)
  | cons event events ih =>
    rw [ServerTransport.live_cons]
    by_cases hstart : event = .start
    · subst hstart
      show (∃ t, (ServerTransport.started n 0).live events = .ok t) ↔ _
      rw [ServerTransport.live_started n (Nat.zero_le 6), List.cons_sublist_cons]
      simp
    · have hsublist : (TransportEvent.start :: mainSteps.map MainStep.ending).Sublist
          (event :: events) ↔ (TransportEvent.start :: mainSteps.map MainStep.ending).Sublist
            events :=
        ⟨List.Sublist.of_cons_of_ne (Ne.symm hstart), .cons event⟩
      rw [hsublist]
      cases event with
      | start => exact absurd rfl hstart
      | close =>
        exact iff_of_false (fun ⟨t, h⟩ => nomatch h) (fun h => h.1 List.mem_cons_self)
      | progress | interrupt =>
        show (∃ t, (ServerTransport.new n).live events = .ok t) ↔ _
        rw [ih]
        simp

/-! ## The store -/

/-- **`Store`**, as far as it makes and resets things. -/
structure Store where
  serverTransport : Option ServerTransport
  ndbDefiners : Bool
  ndbExecutors : Bool
  isRunning : Bool
deriving DecidableEq

/-- What happens to a store. -/
inductive StoreEvent where
  | run | stop | progress | interrupt
deriving DecidableEq, Repr

namespace Store

variable (T : Threads)

/-- The constructor. -/
def new : Store := ⟨some (ServerTransport.new T.noDefinerThread), false, false, false⟩

/-- `Store::_initDB`: the array of the definers is not made. -/
def initDB (s : Store) : Store := { s with ndbExecutors := true }

/-- **`Store::run`.** The task sockets are made in the context of the
transport, as are those of the executor threads, for which it waits. -/
def run (s : Store) : Except Component Store :=
  if s.isRunning then return s
  else
    match s.serverTransport with
    | none => .error .serverTransport
    | some transport => do
      deref .context transport.context
      let s := { s with serverTransport := some transport.start }
      return { s.initDB with isRunning := true }

/-- `Store::_cleanUp`: the threads are joined, and the transport is
reset. -/
def cleanUp (s : Store) : Except Component Store :=
  match s.serverTransport with
  | none => return s
  | some transport => do
    let _ ← transport.close
    return { s with serverTransport := none }

/-- **`Store::stop`.** -/
def stop (s : Store) : Except Component Store :=
  if s.isRunning then do
    let s ← s.cleanUp
    return { s with isRunning := false }
  else return s

/-- `Store::_clearNDb` of an array for `total` objects. -/
def clearNDb (array : Component) (isThere : Bool) (total : Nat) : Except Component Unit :=
  if 0 < total then deref array isThere else return ()

/-- **`Store::~Store`**, and the transport it holds. -/
def destroy (s : Store) : Except Component Store := do
  let s ← s.stop
  clearNDb .ndbDefiners s.ndbDefiners T.noDefinerThread
  clearNDb .ndbExecutors s.ndbExecutors T.noExecutorThreads
  s.cleanUp

/-- The main thread of the transport takes a step. -/
def progress (s : Store) : Except Component Store :=
  match s.serverTransport with
  | none => return s
  | some transport => do
    let transport ← transport.progress
    return { s with serverTransport := some transport }

/-- It gets a signal. -/
def interrupt (s : Store) : Store :=
  { s with serverTransport := s.serverTransport.map ServerTransport.interrupt }

def step (s : Store) : StoreEvent → Except Component Store
  | .run => s.run
  | .stop => s.stop
  | .progress => s.progress
  | .interrupt => return s.interrupt

end Store

/-- **The life of a store goes well.** -/
def StoreSafe (T : Threads) (events : List StoreEvent) : Prop :=
  ∃ s, events.foldlM Store.step (Store.new T) >>= Store.destroy T = .ok s

/-- What is done after a step that went well. -/
theorem exists_of_bind_ok {α β : Type} {x : Except Component α} {f : α → Except Component β}
    {b : β} (h : x >>= f = .ok b) : ∃ a, x = .ok a ∧ f a = .ok b := by
  cases x with
  | error c => cases h
  | ok a => exact ⟨a, rfl, h⟩

namespace Store

theorem ndbDefiners_cleanUp {s s' : Store} (h : s.cleanUp = .ok s') :
    s'.ndbDefiners = s.ndbDefiners := by
  unfold cleanUp at h
  split at h
  · obtain rfl := Except.ok.inj h
    rfl
  · obtain ⟨t, -, h⟩ := exists_of_bind_ok h
    obtain rfl := Except.ok.inj h
    rfl

theorem ndbDefiners_stop {s s' : Store} (h : s.stop = .ok s') :
    s'.ndbDefiners = s.ndbDefiners := by
  unfold stop at h
  split at h
  · obtain ⟨cleaned, hc, h⟩ := exists_of_bind_ok h
    rw [← ndbDefiners_cleanUp hc]
    obtain rfl := Except.ok.inj h
    rfl
  · obtain rfl := Except.ok.inj h
    rfl

/-- No step makes the array of the definers. -/
theorem ndbDefiners_step {s s' : Store} {event : StoreEvent} (h : s.step event = .ok s') :
    s'.ndbDefiners = s.ndbDefiners := by
  cases event with
  | stop => exact ndbDefiners_stop h
  | run =>
    change s.run = .ok s' at h
    unfold run at h
    split at h
    · obtain rfl := Except.ok.inj h
      rfl
    · split at h
      · cases h
      · obtain ⟨_, -, h⟩ := exists_of_bind_ok h
        obtain rfl := Except.ok.inj h
        rfl
  | progress =>
    change s.progress = .ok s' at h
    unfold progress at h
    split at h
    · obtain rfl := Except.ok.inj h
      rfl
    · obtain ⟨t, -, h⟩ := exists_of_bind_ok h
      obtain rfl := Except.ok.inj h
      rfl
  | interrupt =>
    obtain rfl := Except.ok.inj h
    rfl

theorem ndbDefiners_foldlM {s s' : Store} {events : List StoreEvent}
    (h : events.foldlM step s = .ok s') : s'.ndbDefiners = s.ndbDefiners := by
  induction events generalizing s with
  | nil =>
    obtain rfl := Except.ok.inj h
    rfl
  | cons event events ih =>
    rw [List.foldlM_cons] at h
    obtain ⟨next, hstep, hrest⟩ := exists_of_bind_ok h
    rw [ih hrest, ndbDefiners_step hstep]

/-- **The destructor goes through the array of the definers**, if it gets
that far. -/
theorem destroy_ne_ok (T : Threads) {s : Store} (h : s.ndbDefiners = false) (s' : Store) :
    s.destroy T ≠ .ok s' := by
  intro h'
  obtain ⟨stopped, hstop, h'⟩ := exists_of_bind_ok h'
  obtain ⟨_, hclear, -⟩ := exists_of_bind_ok h'
  rw [clearNDb, if_pos T.definer_pos, ndbDefiners_stop hstop, h] at hclear
  cases hclear

/-- A store that was stopped has no transport any more. -/
theorem run_of_stop {s s' : Store} (hrunning : s.isRunning = true) (h : s.stop = .ok s') :
    s'.run = .error .serverTransport := by
  unfold stop at h
  rw [if_pos hrunning] at h
  obtain ⟨cleaned, hc, h⟩ := exists_of_bind_ok h
  obtain rfl := Except.ok.inj h
  have hnone : cleaned.serverTransport = none := by
    unfold cleanUp at hc
    split at hc
    · next hnone =>
      obtain rfl := Except.ok.inj hc
      exact hnone
    · obtain ⟨t, -, hc⟩ := exists_of_bind_ok hc
      obtain rfl := Except.ok.inj hc
      rfl
  simp [run, hnone]

end Store

/-- **No life of a store goes well.** -/
theorem not_storeSafe (T : Threads) (events : List StoreEvent) : ¬ StoreSafe T events := by
  rintro ⟨s', h⟩
  obtain ⟨s, hs, hdestroy⟩ := exists_of_bind_ok h
  exact Store.destroy_ne_ok T (Store.ndbDefiners_foldlM hs) s' hdestroy

/-! ## Both -/

/-- **Which lives go well**: of a transport, those in which it is started,
comes to its proxy and is interrupted there, and is not closed before it is
destroyed; of a store, none, and where it has been stopped while it was
running, it cannot be run again either. -/
theorem lifecycle_iff (T : Threads) (events : List TransportEvent)
    (storeEvents : List StoreEvent) :
    (TransportSafe T.noDefinerThread events ↔ Proper events)
      ∧ ¬ StoreSafe T storeEvents
      ∧ ∀ s s' : Store, s.isRunning = true → s.stop = .ok s' →
          s'.run = .error .serverTransport :=
  ⟨transportSafe_iff T.noDefinerThread events, not_storeSafe T storeEvents,
    fun _ _ => Store.run_of_stop⟩

/-- A transport with one worker thread that is destroyed without having been
started, or as soon as it has been started, or while it is in the proxy; a
store that is run and destroyed; and one that is run once more after a stop
that went well. -/
theorem not_transportSafe_unstarted :
    ¬ TransportSafe 1 [] ∧ ¬ TransportSafe 1 [.start]
      ∧ ¬ TransportSafe 1 [.start, .progress, .progress, .progress, .progress, .progress]
      ∧ ¬ StoreSafe ⟨1, 1, Nat.one_pos, Nat.one_pos⟩ [.run]
      ∧ [.run, .progress, .progress, .progress, .progress, .progress, .interrupt, .stop,
          .run].foldlM Store.step (Store.new ⟨1, 1, Nat.one_pos, Nat.one_pos⟩)
          = .error .serverTransport := by
  rw [transportSafe_iff, transportSafe_iff, transportSafe_iff]
  exact ⟨by decide, by decide, by decide, not_storeSafe _ _, rfl⟩

end Lifecycle

end VoloDB
