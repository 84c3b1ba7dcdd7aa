import VoloDB.Contract

/-!
# Threads that share an environment

A system of threads makes one call after another, each by one of its threads,
and its environment may do something of its own in between. The environment
serves each thread at a **desk**: what it keeps for this thread, which changes
with the calls of this thread only.

Where every thread keeps a contract whose state is its desk, all calls of all
threads are allowed, however they are interleaved (`Shares.allowed`).
-/

namespace Interaction

/-- **What happens in a system**: a thread makes a call, or the environment
does something of its own. -/
inductive Move (ι Call Own : Type) where
  | call (i : ι) (c : Call)
  | own (o : Own)

variable {ι Call Own : Type} {Answer : Call → Type} {Fault α σ τ : Type}

/-- What is answered to it. -/
abbrev Move.Reply (Answer : Call → Type) : Move ι Call Own → Type
  | .call _ c => Answer c
  | .own _ => Unit

/-- A run of a system. -/
abbrev SystemTrace (ι Own : Type) (Answer : Call → Type) : Type :=
  List (Event (fun m : Move ι Call Own => m.Reply Answer))

variable [DecidableEq ι]

/-- The call of the thread, where it is one. -/
def callOf (i : ι) : Event (fun m : Move ι Call Own => m.Reply Answer) → Option (Event Answer)
  | ⟨.call j c, r⟩ => if j = i then some ⟨c, r⟩ else none
  | ⟨.own _, _⟩ => none

/-- **The part of a thread** in a run of the system. -/
def partOf (i : ι) (trace : SystemTrace ι Own Answer) : List (Event Answer) :=
  trace.filterMap (callOf i)

variable {i j : ι} {c : Call} {r : Answer c} {trace : SystemTrace ι Own Answer}

theorem partOf_call_self : partOf i (⟨.call i c, r⟩ :: trace) = ⟨c, r⟩ :: partOf i trace :=
  List.filterMap_cons_some (if_pos rfl)

theorem partOf_call_of_ne (h : j ≠ i) : partOf i (⟨.call j c, r⟩ :: trace) = partOf i trace :=
  List.filterMap_cons_none (if_neg h)

theorem partOf_own (o : Own) : partOf i (⟨.own o, ()⟩ :: trace) = partOf i trace :=
  List.filterMap_cons_none rfl

theorem partOf_append (front rest : SystemTrace ι Own Answer) :
    partOf i (front ++ rest) = partOf i front ++ partOf i rest :=
  List.filterMap_append

/-- The calls of one thread alone. -/
def alone (i : ι) (trace : List (Event Answer)) : SystemTrace ι Own Answer :=
  trace.map (fun e => ⟨.call i e.1, e.2⟩)

theorem partOf_alone_self (trace : List (Event Answer)) :
    partOf i (alone i trace : SystemTrace ι Own Answer) = trace := by
  induction trace with
  | nil => rfl
  | cons e trace ih => exact partOf_call_self.trans (congrArg (List.cons e) ih)

theorem partOf_alone_of_ne (h : j ≠ i) (trace : List (Event Answer)) :
    partOf i (alone j trace : SystemTrace ι Own Answer) = [] := by
  induction trace with
  | nil => rfl
  | cons e trace ih => exact (partOf_call_of_ne h).trans ih

/-- **The threads share the environment**: each has a desk, at which it is
served under the contract `L`. -/
structure Shares (K : Contract (Move ι Call Own) (fun m => m.Reply Answer) τ)
    (L : Contract Call Answer σ) (desk : τ → ι → σ) : Prop where
  allows : ∀ s i c, L.allows (desk s i) c → K.allows s (.call i c)
  allows_own : ∀ s o, K.allows s (.own o)
  admits : ∀ s i c r, K.admits s (.call i c) r → L.admits (desk s i) c r
  desk_self : ∀ s i c r, desk (K.next s (.call i c) r) i = L.next (desk s i) c r
  desk_other : ∀ s i c r j, j ≠ i → desk (K.next s (.call i c) r) j = desk s j
  desk_own : ∀ s o j, desk (K.next s (.own o) ()) j = desk s j

variable {K : Contract (Move ι Call Own) (fun m => m.Reply Answer) τ}
  {L : Contract Call Answer σ} {desk : τ → ι → σ}

/-- **Threads that keep their contracts**, each for itself, make only allowed
calls, in whatever order they make them. -/
theorem Shares.allowed (hshares : Shares K L desk) {s : τ} {post : σ → α → Prop}
    {p : ι → Prog Call Answer Fault α} (hkeeps : ∀ i, (p i).Keeps L post (desk s i))
    (hparts : ∀ i, ∃ q, (p i).Leaves (partOf i trace) q) (hadmitted : K.Admitted s trace) :
    K.Allowed s trace := by
  induction trace generalizing s p with
  | nil => exact trivial
  | cons e trace ih =>
    obtain ⟨⟨i, c⟩ | o, r⟩ := e
    · -- the thread is at this call, and goes on behind it
      obtain ⟨q, hq⟩ := hparts i
      rw [partOf_call_self] at hq
      cases hp : p i with
      | pure a => exact nomatch (hp ▸ hq : Prog.Leaves (.pure a) (⟨c, r⟩ :: _) q)
      | fault f => exact nomatch (hp ▸ hq : Prog.Leaves (.fault f) (⟨c, r⟩ :: _) q)
      | call c' k =>
        rw [hp] at hq
        cases hq with
        | call hq =>
          have hi := hkeeps i
          rw [hp] at hi
          refine ⟨hshares.allows s i c hi.1,
            ih (p := Function.update p i (k r)) (fun j => ?_) (fun j => ?_) hadmitted.2⟩
          · by_cases hj : j = i
            · subst hj
              rw [Function.update_self, hshares.desk_self]
              exact hi.2 r (hshares.admits _ _ _ _ hadmitted.1)
            · rw [Function.update_of_ne hj, hshares.desk_other _ _ _ _ _ hj]
              exact hkeeps j
          · by_cases hj : j = i
            · subst hj
              rw [Function.update_self]
              exact ⟨q, hq⟩
            · rw [Function.update_of_ne hj]
              rw [← partOf_call_of_ne (c := c) (r := r) (Ne.symm hj)]
              exact hparts j
    · refine ⟨hshares.allows_own s o, ih (p := p) (fun j => ?_) (fun j => ?_) hadmitted.2⟩
      · rw [hshares.desk_own]
        exact hkeeps j
      · rw [← partOf_own o]
        exact hparts j

end Interaction
