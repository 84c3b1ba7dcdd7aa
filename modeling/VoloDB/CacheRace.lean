import Mathlib.Logic.Function.Basic
import Mathlib.Logic.Relation
import VoloDB.CacheWatch
import VoloDB.TupleReach

/-!
# The cache and dropped stores

The executors run their batches side by side, call by call. A call to the
cache or to the dictionary is one step, under the lock of the cache where
there is one, and so is a query; but a lookup and the insertion after it
are two steps, and so are the drop of a store and the erasure of its entry.

The model runs the programs of the executors over the one cache they share.
What the cache answers is what is in it, every other answer is arbitrary.
Its clock counts the calls, and a table in the cache or in the hand of an
executor is known by the time it was looked up. A cache is **fresh** if it
has no table of a store that was looked up before a completed drop of that
store.

An executor that has looked a table up before the drop can insert it after
the erasure (`stale_after_drop`). If at every erasure no executor has such
a table in hand, and the cache has none under another key, the cache is
fresh in every state (`fresh_of_clean`).
-/

namespace VoloDB

open Interaction NDBMessageExecutor

namespace CacheRace

/-! ## The executors and the cache -/

/-- A table in the cache, with the time it was looked up. -/
structure Handle where
  table : Table
  lookedUp : Nat

/-- An executor: what remains of its batch, and what it has in hand. -/
structure Executor where
  /-- None between two batches. -/
  program : Option (Exec (List NdbTransactionState))
  watch : Watch
  /-- The time of its last lookup that has found a table. -/
  lookedUp : Nat
  /-- The time of its last query that has succeeded. -/
  doneAt : Nat

/-- **The executors with their cache.** -/
structure State where
  cache : Bytes → Option Handle
  executors : Nat → Executor
  /-- The number of calls so far. -/
  time : Nat
  /-- The drops that have completed: the name of the store, and the time of
  the query. -/
  drops : List (Bytes × Nat)

/-- Before the first batch. -/
def State.init : State where
  cache _ := none
  executors _ := ⟨none, Watch.init, 0, 0⟩
  time := 0
  drops := []

/-- The answers a call can get: from the cache, what it holds. -/
def State.Answers (s : State) : (c : Call) → Answer c → Prop
  | .cacheGet storeName, r => r = (s.cache storeName).map Handle.table
  | _, _ => True

/-- The cache after a call of an executor. -/
def State.cacheAfter (s : State) (executor : Executor) : Call → Bytes → Option Handle
  | .cacheInsert storeName table =>
    Function.update s.cache storeName (some ⟨table, executor.lookedUp⟩)
  | .cacheErase storeName => Function.update s.cache storeName none
  | _ => s.cache

/-- The drop a call completes. -/
def Executor.dropBy (executor : Executor) : Call → List (Bytes × Nat)
  | .cacheErase storeName => [(storeName, executor.doneAt)]
  | _ => []

/-- The time of the last lookup, after a call at the time `time`. -/
def Executor.lookedUpAfter (executor : Executor) (time : Nat) : (c : Call) → Answer c → Nat
  | .getTable _, some _ => time
  | _, _ => executor.lookedUp

/-- The time of the last query, after a call at the time `time`. -/
def Executor.doneAfter (executor : Executor) (time : Nat) : (c : Call) → Answer c → Nat
  | .query _, none => time
  | _, _ => executor.doneAt

/-- An executor after a call. -/
def Executor.after (executor : Executor) (time : Nat) (c : Call) (r : Answer c)
    (program : Exec (List NdbTransactionState)) : Executor where
  program := some program
  watch := executor.watch.next c r
  lookedUp := executor.lookedUpAfter time c r
  doneAt := executor.doneAfter time c r

/-- The state after a call of an executor. -/
def State.after (s : State) (e : Nat) (executor : Executor) (c : Call) (r : Answer c)
    (program : Exec (List NdbTransactionState)) : State where
  cache := s.cacheAfter executor c
  executors := Function.update s.executors e (executor.after s.time c r program)
  time := s.time + 1
  drops := s.drops ++ executor.dropBy c

variable (P : Protobuf) (noExecutorThreads : Nat)

/-- **One step of one executor**, with the call it makes. -/
inductive Step : State → Option (Nat × Call) → State → Prop
  /-- An executor starts a batch, whichever it is. -/
  | start {s : State} {e : Nat} {executor : Executor} (he : e < noExecutorThreads)
      (h : s.executors e = executor) (hidle : executor.program = none)
      (messages : List (List FrameMessagesTuple)) (pending : List NdbTransactionState) :
    Step s none { s with
      executors := Function.update s.executors e
        { executor with program := some (executeBatch P messages pending) } }
  | call {s : State} {e : Nat} {executor : Executor} {c : Call}
      {k : Answer c → Exec (List NdbTransactionState)}
      (h : s.executors e = executor) (hprogram : executor.program = some (.call c k))
      (r : Answer c) (hr : s.Answers c r) :
    Step s (some (e, c)) (s.after e executor c r (k r))
  /-- The batch has come to its end. -/
  | finish {s : State} {e : Nat} {executor : Executor} {pending : List NdbTransactionState}
      (h : s.executors e = executor) (hprogram : executor.program = some (.pure pending)) :
    Step s none { s with
      executors := Function.update s.executors e { executor with program := none } }

/-- The states the executors reach. -/
def Reachable (s : State) : Prop :=
  Relation.ReflTransGen (fun s s' => ∃ l, Step P noExecutorThreads s l s') State.init s

/-- **A fresh cache**: for every completed drop, what the cache holds of
the store was not looked up before it. -/
def Fresh (s : State) : Prop :=
  ∀ drop ∈ s.drops, ∀ key handle, s.cache key = some handle → cStr key = cStr drop.1 →
    ¬ handle.lookedUp < drop.2

/-! ## The discipline of the executors -/

/-- An executor keeps to the monitor of the cache. -/
def Executor.Disciplined (executor : Executor) : Prop :=
  match executor.program with
  | none => executor.watch.lookup = none
  | some program =>
    program.Conforms cacheMonitor (fun w _ => w.lookup = none) executor.watch

variable {P noExecutorThreads}

theorem Executor.Disciplined.start {executor : Executor} (h : executor.Disciplined)
    (hidle : executor.program = none) (messages : List (List FrameMessagesTuple))
    (pending : List NdbTransactionState) :
    Executor.Disciplined { executor with program := some (executeBatch P messages pending) } := by
  unfold Executor.Disciplined at h
  rw [hidle] at h
  exact steady_executeBatch P messages pending executor.watch h

theorem Executor.Disciplined.call {executor : Executor} (h : executor.Disciplined) {c : Call}
    {k : Answer c → Exec (List NdbTransactionState)}
    (hprogram : executor.program = some (.call c k)) :
    executor.watch.allows c ∧ ∀ time r, (executor.after time c r (k r)).Disciplined := by
  unfold Executor.Disciplined at h
  rw [hprogram] at h
  exact ⟨h.1, fun _ r => h.2 r⟩

theorem Executor.Disciplined.finish {executor : Executor} (h : executor.Disciplined)
    {pending : List NdbTransactionState} (hprogram : executor.program = some (.pure pending)) :
    Executor.Disciplined { executor with program := none } := by
  unfold Executor.Disciplined at h
  rw [hprogram] at h
  exact h

/-- Every executor keeps to the monitor, and its query is in the past. -/
structure Inv (s : State) : Prop where
  disciplined : ∀ e, (s.executors e).Disciplined
  doneAt_le : ∀ e, (s.executors e).doneAt ≤ s.time
  drops_le : ∀ drop ∈ s.drops, drop.2 ≤ s.time

theorem inv_init : Inv State.init where
  disciplined _ := rfl
  doneAt_le _ := le_refl 0
  drops_le _ h := absurd h List.not_mem_nil

theorem Executor.doneAfter_le (executor : Executor) {time : Nat} (h : executor.doneAt ≤ time)
    (c : Call) (r : Answer c) : executor.doneAfter time c r ≤ time + 1 := by
  unfold Executor.doneAfter
  split
  · exact Nat.le_succ time
  · exact Nat.le_succ_of_le h

/-- What holds of the executor that takes a step, and of all others, holds
of all. -/
theorem forall_executors {Q : Executor → Prop} {s : State} {e : Nat} {executor : Executor}
    (he : Q executor) (h : ∀ e', Q (s.executors e')) :
    ∀ e', Q (Function.update s.executors e executor e') :=
  (Function.forall_update_iff s.executors (fun _ x => Q x)).mpr ⟨he, fun e' _ => h e'⟩

/-- The drop a call completes is that of an erased entry, at the time of
the last query. -/
theorem Executor.mem_dropBy {executor : Executor} {c : Call} {drop : Bytes × Nat}
    (h : drop ∈ executor.dropBy c) :
    ∃ storeName, c = .cacheErase storeName ∧ drop = (storeName, executor.doneAt) := by
  cases c with
  | cacheErase storeName => exact ⟨storeName, rfl, List.mem_singleton.mp h⟩
  | _ => exact absurd h List.not_mem_nil

/-- No drop has been completed that is still to come, before a call or by
it. -/
theorem Inv.drops_after_le {s : State} (hI : Inv s) (e : Nat) (c : Call) :
    ∀ drop ∈ s.drops ++ (s.executors e).dropBy c, drop.2 ≤ s.time := by
  intro drop hdrop
  rcases List.mem_append.mp hdrop with hdrop | hdrop
  · exact hI.drops_le drop hdrop
  · obtain ⟨storeName, -, rfl⟩ := Executor.mem_dropBy hdrop
    exact hI.doneAt_le e

theorem Inv.step {s s' : State} {l : Option (Nat × Call)} (hI : Inv s)
    (h : Step P noExecutorThreads s l s') : Inv s' := by
  cases h with
  | @start e executor he h hidle messages pending =>
    subst h
    exact ⟨forall_executors ((hI.disciplined e).start hidle messages pending) hI.disciplined,
      forall_executors (Q := fun x => x.doneAt ≤ s.time) (hI.doneAt_le e) hI.doneAt_le,
      hI.drops_le⟩
  | @call e executor c k h hprogram r hr =>
    subst h
    exact ⟨forall_executors (((hI.disciplined e).call hprogram).2 s.time r) hI.disciplined,
      forall_executors (Q := fun x => x.doneAt ≤ s.time + 1)
        ((s.executors e).doneAfter_le (hI.doneAt_le e) c r)
        (fun e' => Nat.le_succ_of_le (hI.doneAt_le e')),
      fun drop hdrop => Nat.le_succ_of_le (hI.drops_after_le e c drop hdrop)⟩
  | @finish e executor pending h hprogram =>
    subst h
    exact ⟨forall_executors ((hI.disciplined e).finish hprogram) hI.disciplined,
      forall_executors (Q := fun x => x.doneAt ≤ s.time) (hI.doneAt_le e) hI.doneAt_le,
      hI.drops_le⟩

theorem Reachable.inv {s : State} (h : Reachable P noExecutorThreads s) : Inv s := by
  induction h with
  | refl => exact inv_init
  | tail _ hstep ih =>
    obtain ⟨l, hstep⟩ := hstep
    exact ih.step hstep

/-- **An erasure completes a drop**: the executor that erases an entry has
just dropped the store, at the time of its last query. -/
theorem done_of_erase {s s' : State} {e : Nat} {storeName : Bytes}
    (hs : Reachable P noExecutorThreads s)
    (h : Step P noExecutorThreads s (some (e, .cacheErase storeName)) s') :
    (s.executors e).watch.done = some (cStr (ascii "DROP TABLE " ++ storeName))
      ∧ s'.drops = s.drops ++ [(storeName, (s.executors e).doneAt)] := by
  cases h with
  | call h hprogram r hr =>
    subst h
    exact ⟨((hs.inv.disciplined e).call hprogram).1.2, rfl⟩

/-! ## Runs that keep the cache fresh -/

/-- An executor has no table of a dropped store in hand that was looked up
before the drop. -/
def Executor.Fresh (executor : Executor) (drop : Bytes × Nat) : Prop :=
  ∀ table, executor.watch.lookup = some (cStr drop.1, table) → ¬ executor.lookedUp < drop.2

/-- **Nothing stale is on its way** when an executor erases the entry of a
store: no executor has a table of it in hand that was looked up before the
drop, and the cache has none under another key. -/
structure Clean (s : State) (e : Nat) (storeName : Bytes) : Prop where
  inHand : ∀ e', (s.executors e').Fresh (storeName, (s.executors e).doneAt)
  key : ∀ key handle, s.cache key = some handle → cStr key = cStr storeName →
    key ≠ storeName → ¬ handle.lookedUp < (s.executors e).doneAt

/-- A step that is clean where it erases an entry. -/
def CleanStep (P : Protobuf) (noExecutorThreads : Nat) (s s' : State) : Prop :=
  ∃ l, Step P noExecutorThreads s l s'
    ∧ ∀ e storeName, l = some (e, .cacheErase storeName) → Clean s e storeName

/-- The states the executors reach if every erasure is clean. -/
def CleanlyReachable (P : Protobuf) (noExecutorThreads : Nat) (s : State) : Prop :=
  Relation.ReflTransGen (CleanStep P noExecutorThreads) State.init s

theorem CleanlyReachable.reachable {s : State} (h : CleanlyReachable P noExecutorThreads s) :
    Reachable P noExecutorThreads s := by
  refine Relation.ReflTransGen.mono ?_ _ _ h
  rintro s s' ⟨l, hstep, -⟩
  exact ⟨l, hstep⟩

/-- No table in hand was looked up before a completed drop of its store. -/
def FreshInHand (s : State) : Prop := ∀ drop ∈ s.drops, ∀ e, (s.executors e).Fresh drop

/-- A table in hand is one that was there before, or has just been looked
up. -/
theorem lookup_next {executor : Executor} (time : Nat) {c : Call} {r : Answer c}
    {found : Bytes × Table} (h : (executor.watch.next c r).lookup = some found) :
    (executor.watch.lookup = some found ∧ executor.lookedUpAfter time c r = executor.lookedUp)
      ∨ executor.lookedUpAfter time c r = time := by
  cases c with
  | getTable storeName =>
    cases r with
    | none => exact Or.inl ⟨h, rfl⟩
    | some table => exact Or.inr rfl
  | cacheInsert storeName table => exact absurd h (by simp [Watch.next])
  | query text =>
    cases r with
    | none => exact Or.inl ⟨h, rfl⟩
    | some error => exact Or.inl ⟨h, rfl⟩
  | _ => exact Or.inl ⟨h, rfl⟩

/-- **The step lemma**, for what the executors have in hand. -/
theorem FreshInHand.after {s : State} (hI : Inv s) (hf : FreshInHand s) {e : Nat} {c : Call}
    (r : Answer c) (program : Exec (List NdbTransactionState))
    (hclean : ∀ storeName, c = .cacheErase storeName → Clean s e storeName) :
    FreshInHand (s.after e (s.executors e) c r program) := by
  intro drop hdrop
  have hbefore : ∀ e', (s.executors e').Fresh drop := by
    rcases List.mem_append.mp hdrop with hdrop | hdrop
    · exact hf drop hdrop
    · -- the drop that the call completes
      obtain ⟨storeName, hc, rfl⟩ := Executor.mem_dropBy hdrop
      exact (hclean storeName hc).inHand
  refine forall_executors (Q := fun x => x.Fresh drop) (fun table hlookup => ?_) hbefore
  show ¬ (s.executors e).lookedUpAfter s.time c r < drop.2
  obtain ⟨hold, htime⟩ | htime := lookup_next s.time hlookup
  · rw [htime]
    exact hbefore e table hold
  · rw [htime]
    exact Nat.not_lt.mpr (hI.drops_after_le e c drop hdrop)

/-- **The step lemma**, for the cache. -/
theorem Fresh.after {s : State} (hf : Fresh s) (hh : FreshInHand s) {e : Nat} {c : Call}
    (hallows : (s.executors e).watch.allows c) (r : Answer c)
    (program : Exec (List NdbTransactionState))
    (hclean : ∀ storeName, c = .cacheErase storeName → Clean s e storeName) :
    Fresh (s.after e (s.executors e) c r program) := by
  intro drop hdrop key handle hhandle hkey
  cases c with
  | cacheInsert storeName table =>
    have hdrop' : drop ∈ s.drops := by
      rcases List.mem_append.mp hdrop with hdrop | hdrop
      · exact hdrop
      · exact absurd hdrop List.not_mem_nil
    have hhandle : Function.update s.cache storeName
        (some ⟨table, (s.executors e).lookedUp⟩) key = some handle := hhandle
    by_cases hks : key = storeName
    · -- what is inserted was in hand
      subst hks
      rw [Function.update_self] at hhandle
      rw [← Option.some.inj hhandle]
      have hlookup : (s.executors e).watch.lookup = some (cStr key, table) := hallows
      exact hh drop hdrop' e table (hkey ▸ hlookup)
    · rw [Function.update_of_ne hks] at hhandle
      exact hf drop hdrop' key handle hhandle hkey
  | cacheErase storeName =>
    have hhandle : Function.update s.cache storeName none key = some handle := hhandle
    by_cases hks : key = storeName
    · subst hks
      rw [Function.update_self] at hhandle
      exact absurd hhandle (by simp)
    · rw [Function.update_of_ne hks] at hhandle
      rcases List.mem_append.mp hdrop with hdrop | hdrop
      · exact hf drop hdrop key handle hhandle hkey
      · -- the drop that completes: what is under another key is not stale
        rw [List.mem_singleton.mp hdrop] at hkey ⊢
        exact (hclean storeName rfl).key key handle hhandle hkey hks
  | _ =>
    rcases List.mem_append.mp hdrop with hdrop | hdrop
    · exact hf drop hdrop key handle hhandle hkey
    · exact absurd hdrop List.not_mem_nil

/-- A clean run keeps the cache fresh, and what is in the executors'
hands. -/
theorem CleanlyReachable.inv {s : State} (h : CleanlyReachable P noExecutorThreads s) :
    Inv s ∧ FreshInHand s ∧ Fresh s := by
  induction h with
  | refl =>
    exact ⟨inv_init, fun drop hdrop => absurd hdrop List.not_mem_nil,
      fun drop hdrop => absurd hdrop List.not_mem_nil⟩
  | @tail s s' _ hstep ih =>
    obtain ⟨hI, hh, hf⟩ := ih
    obtain ⟨l, hstep, hclean⟩ := hstep
    refine ⟨hI.step hstep, ?_⟩
    cases hstep with
    | @start e executor he h hidle messages pending =>
      subst h
      exact ⟨fun drop hdrop =>
        forall_executors (Q := fun x => x.Fresh drop) (hh drop hdrop e) (hh drop hdrop), hf⟩
    | @call e executor c k h hprogram r hr =>
      subst h
      have hclean' : ∀ storeName, c = .cacheErase storeName → Clean s e storeName :=
        fun storeName hc => hclean e storeName (by rw [hc])
      exact ⟨hh.after hI r _ hclean',
        hf.after hh ((hI.disciplined e).call hprogram).1 r _ hclean'⟩
    | @finish e executor pending h hprogram =>
      subst h
      exact ⟨fun drop hdrop =>
        forall_executors (Q := fun x => x.Fresh drop) (hh drop hdrop e) (hh drop hdrop), hf⟩

/-- **If every erasure is clean, the cache is fresh in every state.** -/
theorem fresh_of_clean {s : State} (h : CleanlyReachable P noExecutorThreads s) : Fresh s :=
  h.inv.2.2

/-! ## A store that is set and dropped -/

theorem CleanlyReachable.start {s : State} (h : CleanlyReachable P noExecutorThreads s)
    {e : Nat} (he : e < noExecutorThreads) (hidle : (s.executors e).program = none)
    (messages : List (List FrameMessagesTuple)) :
    CleanlyReachable P noExecutorThreads { s with
      executors := Function.update s.executors e
        { s.executors e with program := some (executeBatch P messages []) } } := by
  refine h.tail ⟨none, .start he rfl hidle messages [], ?_⟩
  intro e' storeName hl
  exact absurd hl (by simp)

/-- A run whose erasures are all clean, from some state on. -/
abbrev CleanRun (P : Protobuf) (noExecutorThreads : Nat) (s s' : State) : Prop :=
  Relation.ReflTransGen (CleanStep P noExecutorThreads) s s'

theorem CleanlyReachable.here {s : State} (_ : CleanlyReachable P noExecutorThreads s) :
    CleanRun P noExecutorThreads s s := .refl

theorem CleanRun.call {s₀ s : State} (h : CleanRun P noExecutorThreads s₀ s) {e : Nat} {c : Call}
    {k : Answer c → Exec (List NdbTransactionState)}
    (hprogram : (s.executors e).program = some (.call c k)) (r : Answer c)
    (hr : s.Answers c r) (hclean : ∀ storeName, c = .cacheErase storeName → Clean s e storeName) :
    CleanRun P noExecutorThreads s₀ (s.after e (s.executors e) c r (k r)) := by
  refine h.tail ⟨some (e, c), .call rfl hprogram r hr, ?_⟩
  intro e' storeName hl
  obtain ⟨rfl, hc⟩ := Prod.mk.inj (Option.some.inj hl)
  exact hclean storeName hc

theorem CleanlyReachable.call {s : State} (h : CleanlyReachable P noExecutorThreads s)
    {e : Nat} {c : Call} {k : Answer c → Exec (List NdbTransactionState)}
    (hprogram : (s.executors e).program = some (.call c k)) (r : Answer c)
    (hr : s.Answers c r) (hclean : ∀ storeName, c = .cacheErase storeName → Clean s e storeName) :
    CleanlyReachable P noExecutorThreads (s.after e (s.executors e) c r (k r)) :=
  CleanRun.call h hprogram r hr hclean

theorem Reachable.call {s : State} (h : Reachable P noExecutorThreads s) {e : Nat} {c : Call}
    {k : Answer c → Exec (List NdbTransactionState)}
    (hprogram : (s.executors e).program = some (.call c k)) (r : Answer c)
    (hr : s.Answers c r) :
    Reachable P noExecutorThreads (s.after e (s.executors e) c r (k r)) :=
  h.tail ⟨some (e, c), .call rfl hprogram r hr⟩

/-- A client that sets a row of the store. -/
def setTuple : FrameMessagesTuple :=
  ⟨ascii "x", ascii "a", [.set ⟨[⟨ascii "t"⟩], [], []⟩]⟩

/-- Another that drops the store. -/
def dropTuple : FrameMessagesTuple :=
  ⟨ascii "y", ascii "b", [.dropStore ⟨⟨ascii "t"⟩⟩]⟩

/-- **A stale table in the cache**: the first executor has looked the store
up for a `SET`, the second drops it and erases its entry, and the first
inserts what it has in hand. -/
theorem stale_after_drop : ∃ s, Reachable wireFormat 2 s ∧ ¬ Fresh s := by
  have h₀ : CleanlyReachable wireFormat 2 State.init := .refl
  have h₁ := h₀.start (e := 0) Nat.two_pos rfl [[setTuple]]
  have h₂ := h₁.start (e := 1) Nat.one_lt_two rfl [[dropTuple]]
  have h₃ := h₂.call (e := 0) (c := .take setTuple) rfl () trivial (fun _ => Call.noConfusion)
  have h₄ := h₃.call (e := 0) (c := .cacheGet (ascii "t")) rfl none rfl
    (fun _ => Call.noConfusion)
  have h₅ := h₄.call (e := 0) (c := .getTable (ascii "t")) rfl (some (Table.ofNames [])) trivial
    (fun _ => Call.noConfusion)
  have h₆ := h₅.call (e := 1) (c := .take dropTuple) rfl () trivial (fun _ => Call.noConfusion)
  have h₇ := h₆.call (e := 1) (c := .query (ascii "DROP TABLE t")) rfl none trivial
    (fun _ => Call.noConfusion)
  -- the first executor has the table in hand now
  have h₈ := h₇.reachable.call (e := 1) (c := .cacheErase (ascii "t")) rfl () trivial
  have h₉ := h₈.call (e := 0) (c := .cacheInsert (ascii "t") (Table.ofNames [])) rfl () trivial
  refine ⟨_, h₉, fun hfresh => ?_⟩
  -- looked up at the time 2, and dropped at the time 4
  exact hfresh (ascii "t", 4) (List.mem_singleton.mpr rfl) (ascii "t") ⟨Table.ofNames [], 2⟩ rfl
    rfl (by decide)

/-- If the `SET` inserts its table before the store is dropped, the entry is
gone after the `DROP_STORE`. -/
theorem fresh_set_then_drop :
    ∃ s₀ s₁ s, CleanlyReachable wireFormat 2 s₀
      ∧ (s₀.executors 0).program = some (executeBatch wireFormat [[setTuple]] [])
      ∧ (s₀.executors 1).program = some (executeBatch wireFormat [[dropTuple]] [])
      ∧ CleanRun wireFormat 2 s₀ s₁
      ∧ s₁.cache (ascii "t") = some ⟨Table.ofNames [], 2⟩ ∧ s₁.drops = []
      ∧ CleanRun wireFormat 2 s₁ s
      ∧ s.drops = [(ascii "t", 5)] ∧ s.cache (ascii "t") = none ∧ Fresh s := by
  have h₀ : CleanlyReachable wireFormat 2 State.init := .refl
  have h₁ := h₀.start (e := 0) Nat.two_pos rfl [[setTuple]]
  have h₂ := h₁.start (e := 1) Nat.one_lt_two rfl [[dropTuple]]
  have h₃ := h₂.here.call (e := 0) (c := .take setTuple) rfl () trivial (fun _ => Call.noConfusion)
  have h₄ := h₃.call (e := 0) (c := .cacheGet (ascii "t")) rfl none rfl
    (fun _ => Call.noConfusion)
  have h₅ := h₄.call (e := 0) (c := .getTable (ascii "t")) rfl (some (Table.ofNames [])) trivial
    (fun _ => Call.noConfusion)
  have h₆ := h₅.call (e := 0) (c := .cacheInsert (ascii "t") (Table.ofNames [])) rfl () trivial
    (fun _ => Call.noConfusion)
  have hset : CleanlyReachable wireFormat 2 _ := h₂.trans h₆
  have h₇ := hset.here.call (e := 1) (c := .take dropTuple) rfl () trivial
    (fun _ => Call.noConfusion)
  have h₈ := h₇.call (e := 1) (c := .query (ascii "DROP TABLE t")) rfl none trivial
    (fun _ => Call.noConfusion)
  have h₉ := h₈.call (e := 1) (c := .cacheErase (ascii "t")) rfl () trivial ?_
  · exact ⟨_, _, _, h₂, rfl, rfl, h₆, rfl, rfl, h₉, rfl, rfl, fresh_of_clean (hset.trans h₉)⟩
  · intro storeName hstore
    obtain rfl := Call.cacheErase.inj hstore
    refine ⟨fun e' table hlookup => ?_, fun key handle hhandle _ hkey => ?_⟩
    · -- no executor has a table in hand
      have hnone : (none : Option (Bytes × Table)) = some (cStr (ascii "t"), table) := by
        match e' with
        | 0 => exact hlookup
        | 1 => exact hlookup
        | e + 2 => exact hlookup
      exact absurd hnone (by simp)
    · have hhandle : Function.update (fun _ => none) (ascii "t")
          (some ⟨Table.ofNames [], 2⟩) key = some handle := hhandle
      rw [Function.update_of_ne hkey] at hhandle
      exact absurd hhandle (by simp)

end CacheRace

end VoloDB
