import Mathlib.Logic.Function.Basic

/-!
# Objects with atomic operations

Several clients use one object at the same time. A request asks for a list of
operations; it is invoked, and later it is responded to, and in between the
operations take effect, one after the other and among those of all other
requests, each at one moment and on the contents as they are then. A request
that is refused has had no effect at all (`Step`).

What such an object holds for a client who has been answered, whatever else
goes on, is what every operation that may still come preserves
(`Run.holds_of_answered`), and who asks afterwards meets it
(`Run.meets_of_holds`).
-/

namespace Atomic

/-- **An object**: the operations of a request, what they do to the contents,
and how it is responded to. An answer may depend on the contents that each of
the operations has met. -/
structure Object (Contents Request Operation Response : Type) where
  operations : Request → List Operation
  apply : Operation → Contents → Option Contents
  refuses : Request → Response → Prop
  answers : Request → List Contents → Response → Prop

variable {Contents Request Operation Response Ticket : Type}
  (O : Object Contents Request Operation Response)

/-- **A request that is waiting for its response**, and the contents that its
operations have met, as far as they have taken effect. -/
structure Pending where
  request : Request
  met : List (Option Contents)
  length_eq : met.length = (O.operations request).length

/-- None of the operations has taken effect. -/
def Pending.new (q : Request) : Pending O :=
  ⟨q, .replicate (O.operations q).length none, List.length_replicate⟩

variable {O}

/-- An operation has taken effect. -/
def Pending.meet (p : Pending O) (k : Nat) (d : Contents) : Pending O :=
  ⟨p.request, p.met.set k (some d), List.length_set.trans p.length_eq⟩

variable (O) in
/-- The contents, and the requests that are waiting, by their tickets. -/
structure State (Ticket : Type) where
  contents : Contents
  pending : Ticket → Option (Pending O)

variable (O) in
/-- No request is waiting. -/
def State.idle (d : Contents) : State O Ticket := ⟨d, fun _ => none⟩

/-- What can happen to the object. -/
inductive Label (Request Response Ticket : Type) where
  | invoke (τ : Ticket) (q : Request)
  | effect (τ : Ticket) (k : Nat)
  | respond (τ : Ticket) (r : Response)

/-- The request is invoked. -/
def InvokedIn (labels : List (Label Request Response Ticket)) (q : Request) : Prop :=
  ∃ τ, .invoke τ q ∈ labels

/-- The response is given. -/
def RespondedIn (labels : List (Label Request Response Ticket)) (r : Response) : Prop :=
  ∃ τ, .respond τ r ∈ labels

variable [DecidableEq Ticket]

/-- A ticket is given to a request, or taken back. -/
def State.set (s : State O Ticket) (τ : Ticket) (p : Option (Pending O)) : State O Ticket :=
  { s with pending := Function.update s.pending τ p }

/-- **One step.** -/
inductive Step : State O Ticket → Label Request Response Ticket → State O Ticket → Prop
  | invoke {s : State O Ticket} {τ : Ticket} (q : Request) (hfree : s.pending τ = none) :
    Step s (.invoke τ q) (s.set τ (some (.new O q)))
  | effect {s : State O Ticket} {τ : Ticket} {k : Nat} {p : Pending O} {o : Operation}
      {d : Contents} (hp : s.pending τ = some p)
      (ho : (O.operations p.request)[k]? = some o) (hmet : p.met[k]? = some none)
      (happly : O.apply o s.contents = some d) :
    Step s (.effect τ k) ({ s with contents := d }.set τ (some (p.meet k s.contents)))
  | refuse {s : State O Ticket} {τ : Ticket} {r : Response} {p : Pending O}
      (hp : s.pending τ = some p) (hmet : ∀ m ∈ p.met, m = none)
      (hr : O.refuses p.request r) : Step s (.respond τ r) (s.set τ none)
  | answer {s : State O Ticket} {τ : Ticket} {r : Response} {p : Pending O}
      {ds : List Contents} (hp : s.pending τ = some p) (hmet : p.met = ds.map some)
      (hr : O.answers p.request ds r) : Step s (.respond τ r) (s.set τ none)

/-- **A run**, step by step. -/
inductive Run : State O Ticket → List (Label Request Response Ticket) → State O Ticket → Prop
  | nil (s : State O Ticket) : Run s [] s
  | cons {s s' s'' : State O Ticket} {l : Label Request Response Ticket}
      {labels : List (Label Request Response Ticket)} (h : Step s l s')
      (hrest : Run s' labels s'') : Run s (l :: labels) s''

variable {s s' : State O Ticket} {labels front rest : List (Label Request Response Ticket)}

/-- One run after the other. -/
theorem run_append_iff :
    Run s (front ++ rest) s' ↔ ∃ middle, Run s front middle ∧ Run middle rest s' := by
  induction front generalizing s with
  | nil =>
    constructor
    · exact fun h => ⟨s, .nil s, h⟩
    · rintro ⟨_, ⟨⟩, h⟩
      exact h
  | cons l front ih =>
    constructor
    · rintro (_ | ⟨hstep, hrest⟩)
      obtain ⟨middle, hfront, hrest⟩ := ih.mp hrest
      exact ⟨middle, .cons hstep hfront, hrest⟩
    · rintro ⟨middle, _ | ⟨hstep, hfront⟩, hrest⟩
      exact .cons hstep (ih.mpr ⟨middle, hfront, hrest⟩)

theorem State.set_pending_self (τ : Ticket) (p : Option (Pending O)) :
    (s.set τ p).pending τ = p :=
  Function.update_self _ _ _

theorem State.set_pending_of_ne {τ τ' : Ticket} (h : τ' ≠ τ) (p : Option (Pending O)) :
    (s.set τ p).pending τ' = s.pending τ' :=
  Function.update_of_ne h _ _

/-- Something that is so for all that was waiting, and for what comes to a
ticket, is so for all that is waiting. -/
theorem State.forall_set {φ : Ticket → Pending O → Prop} {τ : Ticket} {p : Option (Pending O)}
    (h : ∀ τ' p', s.pending τ' = some p' → φ τ' p') (hp : ∀ p' ∈ p, φ τ p') :
    ∀ τ' p', (s.set τ p).pending τ' = some p' → φ τ' p' := by
  intro τ' p' hp'
  by_cases hτ : τ' = τ
  · subst hτ
    exact hp p' ((State.set_pending_self _ _).symm.trans hp')
  · exact h τ' p' ((State.set_pending_of_ne hτ _).symm.trans hp')

/-! ## Who comes later -/

variable (O) in
/-- The operations of the request preserve a property of the contents. -/
def Preserves (φ : Contents → Prop) (q : Request) : Prop :=
  ∀ o ∈ O.operations q, ∀ d d', O.apply o d = some d' → φ d → φ d'

variable (O) in
/-- The request brings a property of the contents about. -/
def Makes (φ : Contents → Prop) (q : Request) : Prop :=
  O.operations q ≠ [] ∧ ∀ o ∈ O.operations q, ∀ d d', O.apply o d = some d' → φ d'

variable {φ : Contents → Prop} {Q : Request → Prop} {τ : Ticket} {r : Response}

omit [DecidableEq Ticket] in
theorem Makes.preserves {q : Request} (h : Makes O φ q) : Preserves O φ q :=
  fun o ho d d' happly _ => h.2 o ho d d' happly

/-- What all requests preserve, a run preserves. -/
theorem Step.holds {l : Label Request Response Ticket} (h : Step s l s')
    (hwaiting : ∀ τ p, s.pending τ = some p → Preserves O φ p.request) (hs : φ s.contents) :
    φ s'.contents := by
  cases h with
  | invoke => exact hs
  | effect hp ho hmet happly => exact hwaiting _ _ hp _ (List.mem_of_getElem? ho) _ _ happly hs
  | refuse => exact hs
  | answer => exact hs

/-- All requests that wait are such as may come. -/
theorem Step.waiting {l : Label Request Response Ticket} (h : Step s l s')
    (hinvoked : ∀ τ q, l = .invoke τ q → Q q)
    (hwaiting : ∀ τ p, s.pending τ = some p → Q p.request) :
    ∀ τ p, s'.pending τ = some p → Q p.request := by
  cases h with
  | invoke q hfree =>
    refine State.forall_set hwaiting (fun p hp => ?_)
    obtain rfl := Option.some.inj hp
    exact hinvoked _ q rfl
  | @effect τ k p o d hp =>
    refine State.forall_set (s := { s with contents := d }) hwaiting (fun p' hp' => ?_)
    obtain rfl := Option.some.inj hp'
    exact hwaiting τ p hp
  | refuse => exact State.forall_set hwaiting (fun _ hp => nomatch hp)
  | answer => exact State.forall_set hwaiting (fun _ hp => nomatch hp)

/-- A request that brings `φ` about has done so if it has had an effect. -/
def Shows (φ : Contents → Prop) (s : State O Ticket) : Prop :=
  ∀ τ p, s.pending τ = some p → Makes O φ p.request → (∃ m ∈ p.met, m ≠ none) → φ s.contents

theorem Step.shows {l : Label Request Response Ticket} (h : Step s l s')
    (hwaiting : ∀ τ p, s.pending τ = some p → Preserves O φ p.request) (hs : Shows φ s) :
    Shows φ s' := by
  cases h with
  | invoke q hfree =>
    refine State.forall_set hs (fun p hp _ hmet => ?_)
    obtain rfl := Option.some.inj hp
    obtain ⟨m, hm, hne⟩ := hmet
    exact absurd (List.eq_of_mem_replicate hm) hne
  | @effect τ k p o d hp ho hmet happly =>
    have hold : ∀ τ' p', s.pending τ' = some p' → Makes O φ p'.request →
        (∃ m ∈ p'.met, m ≠ none) → φ d := fun τ' p' hp' hmakes hmet' =>
      hwaiting τ p hp o (List.mem_of_getElem? ho) _ d happly (hs τ' p' hp' hmakes hmet')
    refine State.forall_set (s := { s with contents := d }) hold (fun p' hp' hmakes _ => ?_)
    obtain rfl := Option.some.inj hp'
    exact hmakes.2 o (List.mem_of_getElem? ho) _ d happly
  | refuse => exact State.forall_set hs (fun _ hp => nomatch hp)
  | answer => exact State.forall_set hs (fun _ hp => nomatch hp)

theorem Run.waiting (hrun : Run s labels s') (hinvoked : ∀ τ q, .invoke τ q ∈ labels → Q q)
    (hwaiting : ∀ τ p, s.pending τ = some p → Q p.request) :
    ∀ τ p, s'.pending τ = some p → Q p.request := by
  induction hrun with
  | nil => exact hwaiting
  | cons hstep _ ih =>
    exact ih (fun τ q hq => hinvoked τ q (List.mem_cons_of_mem _ hq))
      (hstep.waiting (fun τ q hl => hinvoked τ q (hl ▸ List.mem_cons_self)) hwaiting)

/-- What all requests that come preserve, a run preserves. -/
theorem Run.holds (hrun : Run s labels s') (hQ : ∀ q, Q q → Preserves O φ q)
    (hinvoked : ∀ τ q, .invoke τ q ∈ labels → Q q)
    (hwaiting : ∀ τ p, s.pending τ = some p → Q p.request) (hs : φ s.contents) :
    φ s'.contents := by
  induction hrun with
  | nil => exact hs
  | cons hstep _ ih =>
    refine ih (fun τ q hq => hinvoked τ q (List.mem_cons_of_mem _ hq))
      (hstep.waiting (fun τ q hl => hinvoked τ q (hl ▸ List.mem_cons_self)) hwaiting) ?_
    exact hstep.holds (fun τ p hp => hQ _ (hwaiting τ p hp)) hs

/-- **Who has been answered** has had his effect: where a request that brings
`φ` about has been answered in a run, and all that come preserve it, `φ` holds
from then on. The response `r` is one that only such requests get, and only as
an answer. -/
theorem Run.holds_of_answered (hrun : Run s labels s')
    (hQ : ∀ q, Q q → Preserves O φ q) (hinvoked : ∀ τ q, .invoke τ q ∈ labels → Q q)
    (hwaiting : ∀ τ p, s.pending τ = some p → Q p.request) (hshows : Shows φ s)
    (hr : .respond τ r ∈ labels) (hrefuses : ∀ q, Q q → ¬ O.refuses q r)
    (hmakes : ∀ q ds, Q q → O.answers q ds r → Makes O φ q) : φ s'.contents := by
  induction hrun with
  | nil => exact absurd hr List.not_mem_nil
  | cons hstep hrest ih =>
    have hinvoked' := fun τ q hq => hinvoked τ q (List.mem_cons_of_mem _ hq)
    have hwaiting' := hstep.waiting (fun τ q hl => hinvoked τ q (hl ▸ List.mem_cons_self)) hwaiting
    have hpreserves := fun τ p hp => hQ _ (hwaiting τ p hp)
    rcases List.mem_cons.mp hr with rfl | hr
    · refine hrest.holds hQ hinvoked' hwaiting' ?_
      cases hstep with
      | refuse hp _ hr => exact absurd hr (hrefuses _ (hwaiting _ _ hp))
      | @answer _ _ p ds hp hmet hr =>
        -- it has operations, so one of them has taken effect
        have hmakes := hmakes _ _ (hwaiting _ _ hp) hr
        refine hshows _ _ hp hmakes ?_
        cases ds with
        | nil =>
          have hlength := p.length_eq
          rw [hmet] at hlength
          exact absurd (List.length_eq_zero_iff.mp hlength.symm) hmakes.1
        | cons d ds => exact ⟨some d, hmet ▸ List.mem_cons_self, Option.some_ne_none d⟩
    · exact ih hinvoked' hwaiting' (hstep.shows hpreserves hshows) hr

/-- A request that may get the response `r` has met only contents with `φ`. -/
def MeetsOnly (φ : Contents → Prop) (r : Response) (s : State O Ticket) : Prop :=
  ∀ τ p, s.pending τ = some p → (∃ ds, O.answers p.request ds r) →
    ∀ d, some d ∈ p.met → φ d

theorem Step.meetsOnly {l : Label Request Response Ticket} (h : Step s l s') (hs : φ s.contents)
    (hmeets : MeetsOnly φ r s) : MeetsOnly φ r s' := by
  cases h with
  | invoke q hfree =>
    refine State.forall_set hmeets (fun p hp _ d hd => ?_)
    obtain rfl := Option.some.inj hp
    exact nomatch List.eq_of_mem_replicate hd
  | @effect τ k p o d hp =>
    refine State.forall_set (s := { s with contents := d }) hmeets (fun p' hp' hr d' hd' => ?_)
    obtain rfl := Option.some.inj hp'
    rcases List.mem_or_eq_of_mem_set hd' with hd' | heq
    · exact hmeets τ p hp hr d' hd'
    · exact Option.some.inj heq ▸ hs
  | refuse => exact State.forall_set hmeets (fun _ hp => nomatch hp)
  | answer => exact State.forall_set hmeets (fun _ hp => nomatch hp)

/-- **Who asks afterwards** meets it: where `φ` holds and all that come
preserve it, the response `r` of a request that was not yet waiting is an
answer to contents with `φ`. -/
theorem Run.meets_of_holds (hrun : Run s labels s')
    (hQ : ∀ q, Q q → Preserves O φ q) (hinvoked : ∀ τ q, .invoke τ q ∈ labels → Q q)
    (hwaiting : ∀ τ p, s.pending τ = some p → Q p.request) (hs : φ s.contents)
    (hmeets : MeetsOnly φ r s) (hr : .respond τ r ∈ labels)
    (hrefuses : ∀ q, Q q → ¬ O.refuses q r) :
    ∃ q ds, Q q ∧ ds.length = (O.operations q).length ∧ O.answers q ds r ∧ ∀ d ∈ ds, φ d := by
  induction hrun with
  | nil => exact absurd hr List.not_mem_nil
  | cons hstep hrest ih =>
    rcases List.mem_cons.mp hr with rfl | hr
    · cases hstep with
      | refuse hp _ hr => exact absurd hr (hrefuses _ (hwaiting _ _ hp))
      | @answer _ _ p ds hp hmet hr =>
        refine ⟨p.request, ds, hwaiting _ _ hp, ?_, hr, fun d hd => hmeets _ _ hp ⟨ds, hr⟩ d ?_⟩
        · rw [← p.length_eq, hmet, List.length_map]
        · exact hmet ▸ List.mem_map_of_mem hd
    · exact ih (fun τ q hq => hinvoked τ q (List.mem_cons_of_mem _ hq))
        (hstep.waiting (fun τ q hl => hinvoked τ q (hl ▸ List.mem_cons_self)) hwaiting)
        (hstep.holds (fun τ p hp => hQ _ (hwaiting τ p hp)) hs) (hstep.meetsOnly hs hmeets) hr

end Atomic
