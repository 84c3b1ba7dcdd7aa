import Mathlib.Data.List.Perm.Basic
import VoloDB.Monitor

/-!
# Programs under a contract

A **contract** has two sides. The monitor in it says which calls a program
may make where; beside it stands which answers it may get there. A program
**keeps** its side if it makes only allowed calls as long as all answers are
admitted, and a run in which they are is then allowed from its beginning to
its end (`Keeps.run`).

What holds at the start of a run and is preserved by every step that both
sides keep holds after every part of the run (`Contract.invariant`).

`Assures` is what every run with admitted answers does, as `Ensures` is what
every run does. An environment that has an answer for every call has a run
for every program (`exists_admitted_run`), so that what is assured of a
program is not assured in vain.
-/

namespace Interaction

/-- **A contract**: a monitor of the calls, and the answers it relies on. -/
structure Contract (Call : Type) (Answer : Call → Type) (σ : Type) extends
    Monitor Call Answer σ where
  admits : σ → (c : Call) → Answer c → Prop

variable {Call : Type} {Answer : Call → Type} {Fault α β σ : Type}
  (C : Contract Call Answer σ)

namespace Contract

/-! ## Traces -/

/-- The state after a trace. -/
def after : σ → List (Event Answer) → σ
  | s, [] => s
  | s, e :: trace => after (C.next s e.1 e.2) trace

/-- **Every answer is admitted** where it is given. -/
def Admitted : σ → List (Event Answer) → Prop
  | _, [] => True
  | s, e :: trace => C.admits s e.1 e.2 ∧ Admitted (C.next s e.1 e.2) trace

/-- **Every call is allowed** where it is made. -/
def Allowed : σ → List (Event Answer) → Prop
  | _, [] => True
  | s, e :: trace => C.allows s e.1 ∧ Allowed (C.next s e.1 e.2) trace

variable {C} {s : σ}

@[simp] theorem after_nil : C.after s [] = s := rfl

@[simp] theorem after_cons (e : Event Answer) (trace : List (Event Answer)) :
    C.after s (e :: trace) = C.after (C.next s e.1 e.2) trace := rfl

theorem after_append {front rest : List (Event Answer)} :
    C.after s (front ++ rest) = C.after (C.after s front) rest := by
  induction front generalizing s with
  | nil => rfl
  | cons e front ih => exact ih

theorem admitted_append {front rest : List (Event Answer)} :
    C.Admitted s (front ++ rest) ↔ C.Admitted s front ∧ C.Admitted (C.after s front) rest := by
  induction front generalizing s with
  | nil => exact ⟨fun h => ⟨trivial, h⟩, fun h => h.2⟩
  | cons e front ih =>
    show _ ∧ C.Admitted _ (front ++ rest) ↔ (_ ∧ _) ∧ _
    rw [ih, and_assoc]
    rfl

theorem allowed_append {front rest : List (Event Answer)} :
    C.Allowed s (front ++ rest) ↔ C.Allowed s front ∧ C.Allowed (C.after s front) rest := by
  induction front generalizing s with
  | nil => exact ⟨fun h => ⟨trivial, h⟩, fun h => h.2⟩
  | cons e front ih =>
    show _ ∧ C.Allowed _ (front ++ rest) ↔ (_ ∧ _) ∧ _
    rw [ih, and_assoc]
    rfl

/-- **The induction over a run** that both sides keep to. -/
theorem invariant {I : σ → Prop}
    (hstep : ∀ s c r, I s → C.allows s c → C.admits s c r → I (C.next s c r))
    {trace : List (Event Answer)} (hs : I s) (hallowed : C.Allowed s trace)
    (hadmitted : C.Admitted s trace) : I (C.after s trace) := by
  induction trace generalizing s with
  | nil => exact hs
  | cons e trace ih =>
    exact ih (hstep s e.1 e.2 hs hallowed.1 hadmitted.1) hallowed.2 hadmitted.2

/-- Every part of a run that both sides keep to is one. -/
theorem invariant_append {I : σ → Prop}
    (hstep : ∀ s c r, I s → C.allows s c → C.admits s c r → I (C.next s c r))
    {front rest : List (Event Answer)} (hs : I s) (hallowed : C.Allowed s (front ++ rest))
    (hadmitted : C.Admitted s (front ++ rest)) : I (C.after s front) :=
  invariant hstep hs (allowed_append.mp hallowed).1 (admitted_append.mp hadmitted).1

/-- **A conservation law**: where every step turns what it takes in into what
it holds and what it gives out, so does a run. -/
theorem conserves {γ : Type} (held : σ → List γ) (taken given : Event Answer → List γ)
    (hstep : ∀ s c r, C.allows s c → C.admits s c r →
      (held s ++ taken ⟨c, r⟩).Perm (held (C.next s c r) ++ given ⟨c, r⟩))
    {trace : List (Event Answer)} (hallowed : C.Allowed s trace)
    (hadmitted : C.Admitted s trace) :
    (held s ++ trace.flatMap taken).Perm (held (C.after s trace) ++ trace.flatMap given) := by
  induction trace generalizing s with
  | nil => exact .refl _
  | cons e trace ih =>
    have hone := hstep s e.1 e.2 hallowed.1 hadmitted.1
    have hrest := ih hallowed.2 hadmitted.2
    rw [List.flatMap_cons, List.flatMap_cons, after_cons, ← List.append_assoc]
    refine (hone.append_right _).trans ?_
    -- what the step has given out goes behind what the rest of the run holds
    rw [List.append_assoc]
    refine (List.perm_append_comm.append_left _).trans ?_
    rw [← List.append_assoc]
    refine (hrest.append_right _).trans ?_
    rw [List.append_assoc]
    exact List.perm_append_comm.append_left _

/-! ## Expecting more -/

/-- The contract that admits only some of the answers. -/
def restrict (C : Contract Call Answer σ) (p : σ → (c : Call) → Answer c → Prop) :
    Contract Call Answer σ where
  allows := C.allows
  next := C.next
  admits s c r := C.admits s c r ∧ p s c r

variable {p : σ → (c : Call) → Answer c → Prop}

@[simp] theorem after_restrict {trace : List (Event Answer)} :
    (C.restrict p).after s trace = C.after s trace := by
  induction trace generalizing s with
  | nil => rfl
  | cons e trace ih => exact ih

theorem Admitted.of_restrict {trace : List (Event Answer)}
    (h : (C.restrict p).Admitted s trace) : C.Admitted s trace := by
  induction trace generalizing s with
  | nil => exact trivial
  | cons e trace ih => exact ⟨h.1.1, ih h.2⟩

/-- Whatever the restriction says of single answers holds of all of them. -/
theorem Admitted.forall_of_restrict {q : Event Answer → Prop} {trace : List (Event Answer)}
    (hq : ∀ s c r, p s c r → q ⟨c, r⟩) (h : (C.restrict p).Admitted s trace) :
    ∀ e ∈ trace, q e := by
  induction trace generalizing s with
  | nil => exact List.forall_mem_nil _
  | cons e trace ih => exact List.forall_mem_cons.mpr ⟨hq s e.1 e.2 h.1.2, ih h.2⟩

theorem Admitted.restrict {q : Event Answer → Prop} {trace : List (Event Answer)}
    (h : C.Admitted s trace) (hq : ∀ e ∈ trace, q e) :
    (C.restrict (fun _ c r => q ⟨c, r⟩)).Admitted s trace := by
  induction trace generalizing s with
  | nil => exact trivial
  | cons e trace ih =>
    obtain ⟨he, htrace⟩ := List.forall_mem_cons.mp hq
    exact ⟨⟨h.1, he⟩, ih h.2 htrace⟩

theorem restrict_true : C.restrict (fun _ _ _ => True) = C := by
  unfold restrict
  simp only [and_true]

/-- **The environment always has an answer.** -/
def Live (C : Contract Call Answer σ) : Prop := ∀ s c, ∃ r, C.admits s c r

end Contract

namespace Prog

/-! ## Programs -/

/-- **The program keeps its side of the contract** from the state `s` on,
and ends with values that satisfy `post` in the state it ends in. -/
def Keeps (post : σ → α → Prop) : σ → Prog Call Answer Fault α → Prop
  | s, pure a => post s a
  | _, fault _ => True
  | s, call c k =>
    C.allows s c ∧ ∀ r, C.admits s c r → Keeps post (C.next s c r) (k r)

variable {C} {post : σ → α → Prop} {post' : σ → β → Prop} {s : σ}

@[simp] theorem keeps_pure {a : α} :
    Keeps C post s (pure a : Prog Call Answer Fault α) ↔ post s a := Iff.rfl

@[simp] theorem keeps_pure' {a : α} :
    Keeps C post s (Pure.pure a : Prog Call Answer Fault α) ↔ post s a := Iff.rfl

/-- The rule for a call followed by the rest of the program. -/
theorem Keeps.perform_bind {c : Call} {f : Answer c → Prog Call Answer Fault β}
    (hc : C.allows s c) (hf : ∀ r, C.admits s c r → Keeps C post' (C.next s c r) (f r)) :
    Keeps C post' s (perform c >>= f) :=
  ⟨hc, hf⟩

/-- **The rule for a sequence.** -/
theorem Keeps.bind {p : Prog Call Answer Fault α} {f : α → Prog Call Answer Fault β}
    (hp : Keeps C post s p) (hf : ∀ s' a, post s' a → Keeps C post' s' (f a)) :
    Keeps C post' s (p >>= f) := by
  induction p generalizing s with
  | pure a => exact hf s a hp
  | fault e => exact trivial
  | call c k ih => exact ⟨hp.1, fun r hr => ih r (hp.2 r hr)⟩

theorem Keeps.mono {post₂ : σ → α → Prop} {p : Prog Call Answer Fault α}
    (hp : Keeps C post s p) (h : ∀ s' a, post s' a → post₂ s' a) :
    Keeps C post₂ s p := by
  induction p generalizing s with
  | pure a => exact h s a hp
  | fault e => exact trivial
  | call c k ih => exact ⟨hp.1, fun r hr => ih r (hp.2 r hr)⟩

/-- **Calls the contract takes no notice of** leave it where it is. -/
theorem Within.keeps {S : Call → Prop} {F : Fault → Prop} {p : Prog Call Answer Fault α}
    (hp : p.Within S F) (hallows : ∀ c, S c → C.allows s c)
    (hnext : ∀ c r, S c → C.next s c r = s) : Keeps C (fun s' _ => s' = s) s p := by
  induction p with
  | pure a => exact rfl
  | fault e => exact trivial
  | call c k ih =>
    refine ⟨hallows c hp.1, fun r _ => ?_⟩
    rw [hnext c r hp.1]
    exact ih r (hp.2 r)

/-- **A program that conforms to a monitor keeps a contract that sees what
the monitor sees**, and allows what it allows. -/
theorem Conforms.keeps {τ : Type} {M : Monitor Call Answer τ} {post : τ → α → Prop}
    {p : Prog Call Answer Fault α} (view : σ → τ)
    (hallows : ∀ s c, M.allows (view s) c → C.allows s c)
    (hnext : ∀ s c r, view (C.next s c r) = M.next (view s) c r)
    (hp : Conforms M post (view s) p) : Keeps C (fun s' a => post (view s') a) s p := by
  induction p generalizing s with
  | pure a => exact hp
  | fault e => exact trivial
  | call c k ih =>
    refine ⟨hallows s c hp.1, fun r _ => ih r ?_⟩
    rw [hnext]
    exact hp.2 r

/-- **A run of a program that keeps its side** is allowed as long as its
answers are admitted. -/
theorem Keeps.run {p : Prog Call Answer Fault α} {trace : List (Event Answer)}
    {o : Except Fault α} (hp : Keeps C post s p) (hrun : Runs p trace o)
    (hadmitted : C.Admitted s trace) :
    C.Allowed s trace ∧ ∀ a, o = .ok a → post (C.after s trace) a := by
  induction p generalizing s trace with
  | pure a =>
    obtain ⟨rfl, rfl⟩ := runs_pure_iff.mp hrun
    exact ⟨trivial, fun b hb => Except.ok.inj hb ▸ hp⟩
  | fault e =>
    obtain ⟨rfl, rfl⟩ := runs_fault_iff.mp hrun
    exact ⟨trivial, fun b hb => by simp at hb⟩
  | call c k ih =>
    obtain ⟨r, rest, rfl, hrest⟩ := runs_call_iff.mp hrun
    obtain ⟨hallowed, hpost⟩ := ih r (hp.2 r hadmitted.1) hrest hadmitted.2
    exact ⟨⟨hp.1, hallowed⟩, hpost⟩

/-- Who keeps a contract keeps it all the more when more is expected of the
environment. -/
theorem Keeps.restrict {p : σ → (c : Call) → Answer c → Prop} {q : Prog Call Answer Fault α}
    (hq : Keeps C post s q) : Keeps (C.restrict p) post s q := by
  induction q generalizing s with
  | pure a => exact hq
  | fault e => exact trivial
  | call c k ih => exact ⟨hq.1, fun r hr => ih r (hq.2 r hr.1)⟩

/-- **A program that keeps a contract keeps another** in which its calls are
allowed, and in whose states the first one's can be seen: what it expects of
the answers to them is expected there as well. -/
theorem Keeps.of_view {τ : Type} {D : Contract Call Answer τ} {J : τ → Prop} {S : Call → Prop}
    {F : Fault → Prop} {p : Prog Call Answer Fault α} (view : τ → σ)
    (hallows : ∀ t c, J t → S c → D.allows t c)
    (hadmits : ∀ t c r, J t → S c → D.admits t c r → C.admits (view t) c r)
    (hnext : ∀ t c r, J t → S c →
      J (D.next t c r) ∧ view (D.next t c r) = C.next (view t) c r) {t : τ} (ht : J t)
    (hp : Keeps C post (view t) p) (hwithin : p.Within S F) :
    Keeps D (fun t' a => J t' ∧ post (view t') a) t p := by
  induction p generalizing t with
  | pure a => exact ⟨ht, hp⟩
  | fault e => exact trivial
  | call c k ih =>
    refine ⟨hallows t c ht hwithin.1, fun r hr => ?_⟩
    obtain ⟨ht', hview⟩ := hnext t c r ht hwithin.1
    refine ih r ht' ?_ (hwithin.2 r)
    rw [hview]
    exact hp.2 r (hadmits t c r ht hwithin.1 hr)

/-! ## What a run under the contract does -/

variable (C) in
/-- **Every run whose answers are admitted** satisfies `Q`, with the state it
ends in. -/
def Assures (s : σ) (p : Prog Call Answer Fault α)
    (Q : σ → List (Event Answer) → Except Fault α → Prop) : Prop :=
  ∀ trace o, Runs p trace o → C.Admitted s trace → Q (C.after s trace) trace o

variable {Q Q' : σ → List (Event Answer) → Except Fault α → Prop}
  {R : σ → List (Event Answer) → Except Fault β → Prop}

theorem assures_pure {a : α} (h : Q s [] (.ok a)) :
    Assures C s (pure a : Prog Call Answer Fault α) Q := by
  rintro _ _ ⟨⟩ -
  exact h

theorem Assures.mono {p : Prog Call Answer Fault α} (h : Assures C s p Q)
    (hQ : ∀ s' trace o, Q s' trace o → Q' s' trace o) : Assures C s p Q' :=
  fun trace o hr ha => hQ _ trace o (h trace o hr ha)

theorem Assures.and {p : Prog Call Answer Fault α} (h : Assures C s p Q)
    (h' : Assures C s p Q') :
    Assures C s p (fun s' trace o => Q s' trace o ∧ Q' s' trace o) :=
  fun trace o hr ha => ⟨h trace o hr ha, h' trace o hr ha⟩

/-- The rule for a call followed by the rest of the program. -/
theorem Assures.perform_bind {c : Call} {f : Answer c → Prog Call Answer Fault β}
    (hf : ∀ r, C.admits s c r →
      Assures C (C.next s c r) (f r) (fun s' trace o => R s' (⟨c, r⟩ :: trace) o)) :
    Assures C s (perform c >>= f) R := by
  intro trace o hr ha
  obtain ⟨r, rest, rfl, hrest⟩ := runs_call_iff.mp hr
  exact hf r ha.1 rest o hrest ha.2

/-- **The rule for a sequence** whose first part does not fail. -/
theorem Assures.bind {T : σ → List (Event Answer) → α → Prop}
    {p : Prog Call Answer Fault α} {f : α → Prog Call Answer Fault β}
    (hp : Assures C s p (fun s' trace o => ∃ a, o = .ok a ∧ T s' trace a))
    (hf : ∀ s' front a, T s' front a →
      Assures C s' (f a) (fun s'' rest o => R s'' (front ++ rest) o)) :
    Assures C s (p >>= f) R := by
  intro trace o hr ha
  obtain ⟨e, rfl, he⟩ | ⟨a, front, rest, rfl, hfront, hrest⟩ := runs_bind_iff.mp hr
  · obtain ⟨a, ho, -⟩ := hp trace _ he ha
    exact absurd ho (by simp)
  · obtain ⟨hfrontAdmitted, hrestAdmitted⟩ := Contract.admitted_append.mp ha
    obtain ⟨b, ho, hT⟩ := hp front _ hfront hfrontAdmitted
    obtain rfl := Except.ok.inj ho
    rw [Contract.after_append]
    exact hf _ front a hT rest o hrest hrestAdmitted

/-- What every run does, a run under the contract does. -/
theorem Ensures.assures {Q : List (Event Answer) → Except Fault α → Prop}
    {p : Prog Call Answer Fault α} (h : Ensures p Q) :
    Assures C s p (fun _ trace o => Q trace o) :=
  fun trace o hr _ => h trace o hr

/-- What a program that keeps its side does and comes to. -/
theorem Keeps.assures {p : Prog Call Answer Fault α} (hp : Keeps C post s p) :
    Assures C s p (fun s' _ o => ∀ a, o = .ok a → post s' a) :=
  fun _ _ hr ha => (hp.run hr ha).2

/-- A program that does not fail, and keeps its side. -/
theorem Returns.assures {R : List (Event Answer) → α → Prop} {p : Prog Call Answer Fault α}
    (h : Returns p R) (hp : Keeps C post s p) :
    Assures C s p (fun s' trace o => ∃ a, o = .ok a ∧ R trace a ∧ post s' a) := by
  refine ((Ensures.assures h).and hp.assures).mono ?_
  rintro s' trace o ⟨⟨a, ho, ha⟩, hpost⟩
  exact ⟨a, ho, ha, hpost a ho⟩

variable (C) in
/-- **Every run whose answers are admitted comes to its end**, and satisfies
`post` there. -/
abbrev Attains (s : σ) (p : Prog Call Answer Fault α) (post : σ → α → Prop) : Prop :=
  Assures C s p (fun s' _ o => ∃ a, o = .ok a ∧ post s' a)

variable {E : List (Event Answer) → Prop} {T T' : σ → List (Event Answer) → α → Prop}
  {U : σ → List (Event Answer) → β → Prop}

variable (C) in
/-- **Every run whose answers are admitted comes to its end**, and satisfies
`T`, unless its trace satisfies `E`. -/
abbrev AssuresUnless (E : List (Event Answer) → Prop) (s : σ) (p : Prog Call Answer Fault α)
    (T : σ → List (Event Answer) → α → Prop) : Prop :=
  Assures C s p (fun s' trace o => E trace ∨ ∃ a, o = .ok a ∧ T s' trace a)

theorem assuresUnless_pure {a : α} (h : T s [] a) :
    AssuresUnless C E s (pure a : Prog Call Answer Fault α) T :=
  assures_pure (Or.inr ⟨a, rfl, h⟩)

theorem AssuresUnless.mono {p : Prog Call Answer Fault α} (h : AssuresUnless C E s p T)
    (hT : ∀ s' trace a, T s' trace a → T' s' trace a) : AssuresUnless C E s p T' := by
  refine Assures.mono h ?_
  rintro s' trace o (he | ⟨a, ho, ha⟩)
  · exact Or.inl he
  · exact Or.inr ⟨a, ho, hT s' trace a ha⟩

/-- The rule for a call followed by the rest of the program. -/
theorem AssuresUnless.perform_bind {c : Call} {f : Answer c → Prog Call Answer Fault β}
    (hE : ∀ front rest, E rest → E (front ++ rest))
    (hf : ∀ r, C.admits s c r → AssuresUnless C E (C.next s c r) (f r)
      (fun s' trace b => U s' (⟨c, r⟩ :: trace) b)) :
    AssuresUnless C E s (perform c >>= f) U := by
  refine Assures.perform_bind (fun r hr => Assures.mono (hf r hr) ?_)
  rintro s' trace o (he | ho)
  · exact Or.inl (hE [⟨c, r⟩] trace he)
  · exact Or.inr ho

/-- **The rule for a sequence**, where what has come about in a part of a run
has come about in the run. -/
theorem AssuresUnless.bind {p : Prog Call Answer Fault α} {f : α → Prog Call Answer Fault β}
    (hE : ∀ front rest, E front ∨ E rest → E (front ++ rest))
    (hp : AssuresUnless C E s p T)
    (hf : ∀ s' front a, T s' front a →
      AssuresUnless C E s' (f a) (fun s'' rest b => U s'' (front ++ rest) b)) :
    AssuresUnless C E s (p >>= f) U := by
  intro trace o hr ha
  obtain ⟨e, rfl, he⟩ | ⟨a, front, rest, rfl, hfront, hrest⟩ := runs_bind_iff.mp hr
  · obtain hbad | ⟨a, ho, -⟩ := hp trace _ he ha
    · exact Or.inl hbad
    · exact absurd ho (by simp)
  · obtain ⟨hfrontAdmitted, hrestAdmitted⟩ := Contract.admitted_append.mp ha
    obtain hbad | ⟨b, ho, hT⟩ := hp front _ hfront hfrontAdmitted
    · exact Or.inl (hE front rest (Or.inl hbad))
    · obtain rfl := Except.ok.inj ho
      rw [Contract.after_append]
      exact (hf _ front a hT rest o hrest hrestAdmitted).imp_left
        (fun hbad => hE front rest (Or.inr hbad))

/-- A program that does not fail for any other reason, and keeps its side. -/
theorem ReturnsUnless.assures {R : List (Event Answer) → α → Prop}
    {p : Prog Call Answer Fault α} (h : ReturnsUnless E p R) (hp : Keeps C post s p) :
    AssuresUnless C E s p (fun s' trace a => R trace a ∧ post s' a) := by
  refine ((Ensures.assures h).and hp.assures).mono ?_
  rintro s' trace o ⟨he | ⟨a, ho, ha⟩, hpost⟩
  · exact Or.inl he
  · exact Or.inr ⟨a, ho, ha, hpost a ho⟩

theorem attains_pure {a : α} (h : post s a) :
    Attains C s (pure a : Prog Call Answer Fault α) post :=
  assures_pure ⟨a, rfl, h⟩

theorem Attains.mono {post₂ : σ → α → Prop} {p : Prog Call Answer Fault α}
    (hp : Attains C s p post) (h : ∀ s' a, post s' a → post₂ s' a) : Attains C s p post₂ := by
  refine Assures.mono hp ?_
  rintro s' trace o ⟨a, ho, ha⟩
  exact ⟨a, ho, h s' a ha⟩

/-- Where every call is allowed, a program that comes to its end keeps its
side. -/
theorem Attains.keeps {p : Prog Call Answer Fault α} (h : Attains C s p post)
    (hallows : ∀ s' c, C.allows s' c) : Keeps C post s p := by
  induction p generalizing s with
  | pure a =>
    obtain ⟨b, hb, hpost⟩ := h [] _ (.pure a) trivial
    exact Except.ok.inj hb ▸ hpost
  | fault e => exact trivial
  | call c k ih =>
    refine ⟨hallows s c, fun r hr => ih r (fun trace o hrun hadmitted => ?_)⟩
    exact h (⟨c, r⟩ :: trace) o (.call hrun) ⟨hr, hadmitted⟩

/-- The rule for a call followed by the rest of the program. -/
theorem Attains.perform_bind {c : Call} {f : Answer c → Prog Call Answer Fault β}
    (hf : ∀ r, C.admits s c r → Attains C (C.next s c r) (f r) post') :
    Attains C s (perform c >>= f) post' :=
  Assures.perform_bind hf

/-- **The rule for a sequence.** -/
theorem Attains.bind {p : Prog Call Answer Fault α} {f : α → Prog Call Answer Fault β}
    (hp : Attains C s p post) (hf : ∀ s' a, post s' a → Attains C s' (f a) post') :
    Attains C s (p >>= f) post' :=
  Assures.bind hp (fun s' _ a ha => hf s' a ha)

theorem Attains.and {post₂ : σ → α → Prop} {p : Prog Call Answer Fault α}
    (h : Attains C s p post) (h' : Attains C s p post₂) :
    Attains C s p (fun s' a => post s' a ∧ post₂ s' a) := by
  refine (Assures.and h h').mono ?_
  rintro s' trace o ⟨⟨a, rfl, ha⟩, b, hb, hb'⟩
  obtain rfl := Except.ok.inj hb
  exact ⟨a, rfl, ha, hb'⟩

/-- A bound on the values holds where the program comes to its end. -/
theorem Attains.and_yields {V : α → Prop} {p : Prog Call Answer Fault α}
    (h : Attains C s p post) (hV : p.Yields V) :
    Attains C s p (fun s' a => post s' a ∧ V a) := by
  intro trace o hr ha
  obtain ⟨a, rfl, hpost⟩ := h trace o hr ha
  exact ⟨a, rfl, hpost, hV.ensures trace _ hr a rfl⟩

/-- **There is a run under the contract**, if the environment always has an
answer. -/
theorem exists_admitted_run (hC : C.Live) (s : σ) (p : Prog Call Answer Fault α) :
    ∃ trace o, Runs p trace o ∧ C.Admitted s trace := by
  induction p generalizing s with
  | pure a => exact ⟨[], _, .pure a, trivial⟩
  | fault e => exact ⟨[], _, .fault e, trivial⟩
  | call c k ih =>
    obtain ⟨r, hr⟩ := hC s c
    obtain ⟨trace, o, hrun, hadmitted⟩ := ih r (C.next s c r)
    exact ⟨_, o, .call hrun, hr, hadmitted⟩

end Prog

end Interaction
