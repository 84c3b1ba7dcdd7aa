import VoloDB.Interaction

/-!
# Monitored programs

A **monitor** watches a program call by call. Its state says which calls
the program may make next, and every call with its answer moves it on. A
program **conforms** to a monitor when it makes only calls that are allowed
where it makes them, whatever the answers.

What `Within` says of the calls of a program regardless of their order,
`Conforms` says of the order as well. It is stated about the rest of a
program from any point of its run, and so is an invariant of a thread that
is taken through the program one call at a time.
-/

namespace Interaction

/-- **A monitor**: the calls it allows, and how it goes on after one. -/
structure Monitor (Call : Type) (Answer : Call → Type) (σ : Type) where
  allows : σ → Call → Prop
  next : σ → (c : Call) → Answer c → σ

namespace Prog

variable {Call : Type} {Answer : Call → Type} {Fault α β σ : Type}
  (M : Monitor Call Answer σ)

/-- **The program conforms to the monitor** from the state `s` on, and ends
with values that satisfy `post` in the state it ends in. -/
def Conforms (post : σ → α → Prop) : σ → Prog Call Answer Fault α → Prop
  | s, pure a => post s a
  | _, fault _ => True
  | s, call c k => M.allows s c ∧ ∀ r, Conforms post (M.next s c r) (k r)

variable {M} {post : σ → α → Prop} {post' : σ → β → Prop} {s : σ}

@[simp] theorem conforms_pure {a : α} :
    Conforms M post s (pure a : Prog Call Answer Fault α) ↔ post s a := Iff.rfl

@[simp] theorem conforms_pure' {a : α} :
    Conforms M post s (Pure.pure a : Prog Call Answer Fault α) ↔ post s a := Iff.rfl

@[simp] theorem conforms_fault {f : Fault} :
    Conforms M post s (fault f : Prog Call Answer Fault α) ↔ True := Iff.rfl

@[simp] theorem conforms_call {c : Call} {k : Answer c → Prog Call Answer Fault α} :
    Conforms M post s (call c k)
      ↔ M.allows s c ∧ ∀ r, Conforms M post (M.next s c r) (k r) := Iff.rfl

/-- The rule for a call followed by the rest of the program. -/
theorem Conforms.perform_bind {c : Call} {f : Answer c → Prog Call Answer Fault β}
    (hc : M.allows s c) (hf : ∀ r, Conforms M post' (M.next s c r) (f r)) :
    Conforms M post' s (perform c >>= f) :=
  ⟨hc, hf⟩

/-- **The rule for a sequence.** -/
theorem Conforms.bind {p : Prog Call Answer Fault α} {f : α → Prog Call Answer Fault β}
    (hp : Conforms M post s p) (hf : ∀ s' a, post s' a → Conforms M post' s' (f a)) :
    Conforms M post' s (p >>= f) := by
  induction p generalizing s with
  | pure a => exact hf s a hp
  | fault e => exact trivial
  | call c k ih => exact ⟨hp.1, fun r => ih r (hp.2 r)⟩

theorem Conforms.mono {post₂ : σ → α → Prop} {p : Prog Call Answer Fault α}
    (hp : Conforms M post s p) (h : ∀ s' a, post s' a → post₂ s' a) :
    Conforms M post₂ s p := by
  induction p generalizing s with
  | pure a => exact h s a hp
  | fault e => exact trivial
  | call c k ih => exact ⟨hp.1, fun r => ih r (hp.2 r)⟩

/-- **Calls the monitor takes no notice of** leave it where it is. -/
theorem Within.conforms {S : Call → Prop} {F : Fault → Prop} {V : α → Prop}
    {p : Prog Call Answer Fault α} (hp : p.Within S F) (hV : p.Yields V)
    (hallows : ∀ c, S c → M.allows s c) (hnext : ∀ c r, S c → M.next s c r = s) :
    Conforms M (fun s' a => s' = s ∧ V a) s p := by
  induction p with
  | pure a => exact ⟨rfl, hV⟩
  | fault e => exact trivial
  | call c k ih =>
    refine ⟨hallows c hp.1, fun r => ?_⟩
    rw [hnext c r hp.1]
    exact ih r (hp.2 r) (hV r)

end Prog

end Interaction
