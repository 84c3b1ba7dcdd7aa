import Mathlib.Data.List.Basic
import Mathlib.Logic.Basic

/-!
# Programs that call their environment

A program that talks to the outside – a database, a socket, a lock – is a
tree: it has ended with a value, or it has failed, or it makes a call and
goes on with the answer. Nothing is said about the answers. What holds of
*every* run of such a tree holds whatever the environment does, and what
*some* run does, some environment can bring about.

`Runs p trace outcome` is one run: the calls made with the answers they
got, in order, and how the program ended; `Leaves p trace q` is a part of
one, with what is left of the program. `Ensures` and `Can` are the two
quantifiers over runs, with one rule for each way to build a program, and
`Within` bounds the calls a program ever makes and the ways it can fail.
-/

namespace Interaction

/-- A program: it ends with a value, ends in a fault, or makes a call and
continues with the answer. -/
inductive Prog (Call : Type) (Answer : Call → Type) (Fault : Type) (α : Type) : Type where
  | pure (a : α)
  | fault (f : Fault)
  | call (c : Call) (k : Answer c → Prog Call Answer Fault α)

/-- A call together with the answer it got. -/
abbrev Event {Call : Type} (Answer : Call → Type) : Type := (c : Call) × Answer c

namespace Prog

variable {Call : Type} {Answer : Call → Type} {Fault α β γ : Type}

/-! ## Sequencing -/

/-- Run `p`, and then the program its value chooses. -/
def bind : Prog Call Answer Fault α → (α → Prog Call Answer Fault β) →
    Prog Call Answer Fault β
  | pure a, f => f a
  | fault e, _ => fault e
  | call c k, f => call c (fun r => (k r).bind f)

instance : Monad (Prog Call Answer Fault) where
  pure := Prog.pure
  bind := Prog.bind

/-- The program that makes one call and ends with its answer. -/
def perform (c : Call) : Prog Call Answer Fault (Answer c) := call c pure

@[simp] theorem pure_bind (a : α) (f : α → Prog Call Answer Fault β) :
    (Pure.pure a >>= f : Prog Call Answer Fault β) = f a := rfl

@[simp] theorem fault_bind (e : Fault) (f : α → Prog Call Answer Fault β) :
    ((fault e : Prog Call Answer Fault α) >>= f) = fault e := rfl

@[simp] theorem call_bind (c : Call) (k : Answer c → Prog Call Answer Fault α)
    (f : α → Prog Call Answer Fault β) :
    (call c k >>= f) = call c (fun r => k r >>= f) := rfl

@[simp] theorem perform_bind (c : Call) (f : Answer c → Prog Call Answer Fault β) :
    (perform c >>= f) = call c f := rfl

theorem bind_assoc (p : Prog Call Answer Fault α) (f : α → Prog Call Answer Fault β)
    (g : β → Prog Call Answer Fault γ) :
    (p >>= f >>= g) = (p >>= fun a => f a >>= g) := by
  induction p with
  | pure a => rfl
  | fault e => rfl
  | call c k ih => exact congrArg (call c) (funext ih)

theorem bind_pure (p : Prog Call Answer Fault α) : (p >>= fun a => pure a) = p := by
  induction p with
  | pure a => rfl
  | fault e => rfl
  | call c k ih => exact congrArg (call c) (funext ih)

/-! ## Runs -/

/-- **One run of a program**: its trace and its outcome. -/
inductive Runs : Prog Call Answer Fault α → List (Event Answer) → Except Fault α → Prop where
  | pure (a : α) : Runs (pure a) [] (.ok a)
  | fault (f : Fault) : Runs (fault f) [] (.error f)
  | call {c : Call} {k : Answer c → Prog Call Answer Fault α} {r : Answer c}
      {trace : List (Event Answer)} {o : Except Fault α} :
      Runs (k r) trace o → Runs (call c k) (⟨c, r⟩ :: trace) o

variable {trace : List (Event Answer)} {o : Except Fault α}

theorem runs_pure_iff {a : α} :
    Runs (pure a : Prog Call Answer Fault α) trace o ↔ trace = [] ∧ o = .ok a := by
  constructor
  · rintro ⟨⟩
    exact ⟨rfl, rfl⟩
  · rintro ⟨rfl, rfl⟩
    exact .pure a

theorem runs_fault_iff {f : Fault} :
    Runs (fault f : Prog Call Answer Fault α) trace o ↔ trace = [] ∧ o = .error f := by
  constructor
  · rintro ⟨⟩
    exact ⟨rfl, rfl⟩
  · rintro ⟨rfl, rfl⟩
    exact .fault f

theorem runs_call_iff {c : Call} {k : Answer c → Prog Call Answer Fault α} :
    Runs (call c k) trace o ↔ ∃ r rest, trace = ⟨c, r⟩ :: rest ∧ Runs (k r) rest o := by
  constructor
  · rintro ⟨⟩
    exact ⟨_, _, rfl, ‹_›⟩
  · rintro ⟨r, rest, rfl, h⟩
    exact .call h

/-- A run of `p` that ends with a value goes on as a run of what follows. -/
theorem Runs.bind {p : Prog Call Answer Fault α} {f : α → Prog Call Answer Fault β}
    {a : α} {front rest : List (Event Answer)} {o : Except Fault β}
    (hp : Runs p front (.ok a)) (hf : Runs (f a) rest o) :
    Runs (p >>= f) (front ++ rest) o := by
  induction p generalizing front with
  | pure b =>
    obtain ⟨rfl, h⟩ := runs_pure_iff.mp hp
    obtain rfl := Except.ok.inj h
    exact hf
  | fault e =>
    exact absurd (runs_fault_iff.mp hp).2 (by simp)
  | call c k ih =>
    obtain ⟨r, front, rfl, hk⟩ := runs_call_iff.mp hp
    exact .call (ih r hk)

/-- A run of `p` that faults is a run of `p` and anything after it. -/
theorem Runs.bind_fault {p : Prog Call Answer Fault α} {e : Fault}
    (f : α → Prog Call Answer Fault β) (hp : Runs p trace (.error e)) :
    Runs (p >>= f) trace (.error e) := by
  induction p generalizing trace with
  | pure b => exact absurd (runs_pure_iff.mp hp).2 (by simp)
  | fault e' =>
    obtain ⟨rfl, h⟩ := runs_fault_iff.mp hp
    obtain rfl := Except.error.inj h
    exact .fault e
  | call c k ih =>
    obtain ⟨r, front, rfl, hk⟩ := runs_call_iff.mp hp
    exact .call (ih r hk)

/-- **The runs of a sequence**: the first part faults, or it ends with a
value and the second part runs from there. -/
theorem runs_bind_iff {p : Prog Call Answer Fault α} {f : α → Prog Call Answer Fault β}
    {o : Except Fault β} :
    Runs (p >>= f) trace o
      ↔ (∃ e, o = .error e ∧ Runs p trace (.error e))
        ∨ ∃ a front rest, trace = front ++ rest ∧ Runs p front (.ok a)
            ∧ Runs (f a) rest o := by
  constructor
  · intro h
    induction p generalizing trace with
    | pure b => exact Or.inr ⟨b, [], trace, rfl, .pure b, h⟩
    | fault e =>
      obtain ⟨rfl, rfl⟩ := runs_fault_iff.mp h
      exact Or.inl ⟨e, rfl, .fault e⟩
    | call c k ih =>
      obtain ⟨r, rest, rfl, hk⟩ := runs_call_iff.mp h
      obtain ⟨e, rfl, he⟩ | ⟨a, front, tail, rfl, ha, hf⟩ := ih r hk
      · exact Or.inl ⟨e, rfl, .call he⟩
      · exact Or.inr ⟨a, ⟨c, r⟩ :: front, tail, rfl, .call ha, hf⟩
  · rintro (⟨e, rfl, he⟩ | ⟨a, front, rest, rfl, ha, hf⟩)
    · exact he.bind_fault f
    · exact ha.bind hf

/-- **A part of a run**, and the program that is left to run after it. -/
inductive Leaves : Prog Call Answer Fault α → List (Event Answer) →
    Prog Call Answer Fault α → Prop where
  | refl (p : Prog Call Answer Fault α) : Leaves p [] p
  | call {c : Call} {k : Answer c → Prog Call Answer Fault α} {r : Answer c}
      {trace : List (Event Answer)} {q : Prog Call Answer Fault α} :
      Leaves (k r) trace q → Leaves (call c k) (⟨c, r⟩ :: trace) q

/-- One more call. -/
theorem Leaves.tail {p : Prog Call Answer Fault α} {c : Call}
    {k : Answer c → Prog Call Answer Fault α} (h : Leaves p trace (.call c k)) (r : Answer c) :
    Leaves p (trace ++ [⟨c, r⟩]) (k r) := by
  generalize hq : Prog.call c k = q at h
  induction h with
  | refl p => exact hq ▸ .call (.refl _)
  | call _ ih => exact .call (ih hq)

/-- A part of a run, and a run of what is left. -/
theorem Leaves.runs {p q : Prog Call Answer Fault α} {rest : List (Event Answer)}
    (h : Leaves p trace q) (hq : Runs q rest o) : Runs p (trace ++ rest) o := by
  induction h with
  | refl p => exact hq
  | call _ ih => exact .call (ih hq)

/-- A run that ends with a value leaves the value. -/
theorem Runs.leaves_pure {p : Prog Call Answer Fault α} {a : α} (h : Runs p trace (.ok a)) :
    Leaves p trace (.pure a) := by
  generalize ho : Except.ok a = o at h
  induction h with
  | pure b => exact Except.ok.inj ho ▸ .refl _
  | fault f => exact nomatch ho
  | call _ ih => exact .call (ih ho)

/-- A whole run is a part of one. -/
theorem Runs.leaves {p : Prog Call Answer Fault α} (h : Runs p trace o) :
    ∃ q, Leaves p trace q := by
  induction h with
  | pure a => exact ⟨_, .refl _⟩
  | fault f => exact ⟨_, .refl _⟩
  | call _ ih => exact ⟨_, .call ih.choose_spec⟩

/-- A run that ends with a value goes on as a part of a run of what follows. -/
theorem Runs.bind_leaves {p : Prog Call Answer Fault α} {f : α → Prog Call Answer Fault β}
    {a : α} {front rest : List (Event Answer)} {q : Prog Call Answer Fault β}
    (hp : Runs p front (.ok a)) (hf : Leaves (f a) rest q) :
    Leaves (p >>= f) (front ++ rest) q := by
  induction p generalizing front with
  | pure b =>
    obtain ⟨rfl, h⟩ := runs_pure_iff.mp hp
    obtain rfl := Except.ok.inj h
    exact hf
  | fault e => exact nomatch (runs_fault_iff.mp hp).2
  | call c k ih =>
    obtain ⟨r, front, rfl, hk⟩ := runs_call_iff.mp hp
    exact .call (ih r hk)

/-- The first calls of a part of a run are one as well. -/
theorem Leaves.take {p q : Prog Call Answer Fault α} (h : Leaves p trace q) (n : ℕ) :
    ∃ q', Leaves p (trace.take n) q' := by
  induction h generalizing n with
  | refl p =>
    rw [List.take_nil]
    exact ⟨p, .refl p⟩
  | @call c k r trace q _ ih =>
    cases n with
    | zero => exact ⟨_, .refl _⟩
    | succ n =>
      obtain ⟨q', hq'⟩ := ih n
      exact ⟨q', .call hq'⟩

/-- The run in which every call gets the answer `answers` has for it. -/
def run (answers : (c : Call) → Answer c) :
    Prog Call Answer Fault α → List (Event Answer) × Except Fault α
  | pure a => ([], .ok a)
  | fault f => ([], .error f)
  | call c k =>
    let rest := (k (answers c)).run answers
    (⟨c, answers c⟩ :: rest.1, rest.2)

theorem runs_run (answers : (c : Call) → Answer c) (p : Prog Call Answer Fault α) :
    Runs p (p.run answers).1 (p.run answers).2 := by
  induction p with
  | pure a => exact .pure a
  | fault f => exact .fault f
  | call c k ih => exact .call (ih (answers c))

theorem answer_of_mem_run (answers : (c : Call) → Answer c)
    (p : Prog Call Answer Fault α) {e : Event Answer} (h : e ∈ (p.run answers).1) :
    e.2 = answers e.1 := by
  induction p with
  | pure a => exact absurd h List.not_mem_nil
  | fault f => exact absurd h List.not_mem_nil
  | call c k ih =>
    rcases List.mem_cons.mp h with rfl | h
    · rfl
    · exact ih _ h

/-- How the program ends when every call gets the answer `answers` has for
it. -/
def outcome (answers : (c : Call) → Answer c) (p : Prog Call Answer Fault α) :
    Except Fault α :=
  (p.run answers).2

variable {answers : (c : Call) → Answer c}

@[simp] theorem outcome_pure (a : α) :
    outcome answers (Pure.pure a : Prog Call Answer Fault α) = .ok a := rfl

@[simp] theorem outcome_fault (f : Fault) :
    outcome answers (fault f : Prog Call Answer Fault α) = .error f := rfl

@[simp] theorem outcome_call (c : Call) (k : Answer c → Prog Call Answer Fault α) :
    outcome answers (call c k) = outcome answers (k (answers c)) := rfl

@[simp] theorem outcome_perform (c : Call) :
    outcome answers (perform c : Prog Call Answer Fault (Answer c)) = .ok (answers c) := rfl

@[simp] theorem outcome_bind (p : Prog Call Answer Fault α)
    (f : α → Prog Call Answer Fault β) :
    outcome answers (p >>= f)
      = match outcome answers p with
        | .ok a => outcome answers (f a)
        | .error e => .error e := by
  induction p with
  | pure a => rfl
  | fault e => rfl
  | call c k ih => exact ih (answers c)

/-! ## What every run does -/

/-- **Every run of `p` satisfies `Q`.** -/
def Ensures (p : Prog Call Answer Fault α)
    (Q : List (Event Answer) → Except Fault α → Prop) : Prop :=
  ∀ trace o, Runs p trace o → Q trace o

variable {Q Q' : List (Event Answer) → Except Fault α → Prop}

theorem Ensures.mono {p : Prog Call Answer Fault α} (h : Ensures p Q)
    (hQ : ∀ trace o, Q trace o → Q' trace o) : Ensures p Q' :=
  fun trace o hr => hQ trace o (h trace o hr)

theorem Ensures.and {p : Prog Call Answer Fault α} (h : Ensures p Q) (h' : Ensures p Q') :
    Ensures p (fun trace o => Q trace o ∧ Q' trace o) :=
  fun trace o hr => ⟨h trace o hr, h' trace o hr⟩

@[simp] theorem ensures_pure {a : α} :
    Ensures (pure a : Prog Call Answer Fault α) Q ↔ Q [] (.ok a) := by
  constructor
  · intro h
    exact h [] _ (.pure a)
  · rintro h _ _ ⟨⟩
    exact h

@[simp] theorem ensures_pure' {a : α} :
    Ensures (Pure.pure a : Prog Call Answer Fault α) Q ↔ Q [] (.ok a) :=
  ensures_pure

@[simp] theorem ensures_fault {f : Fault} :
    Ensures (fault f : Prog Call Answer Fault α) Q ↔ Q [] (.error f) := by
  constructor
  · intro h
    exact h [] _ (.fault f)
  · rintro h _ _ ⟨⟩
    exact h

@[simp] theorem ensures_call {c : Call} {k : Answer c → Prog Call Answer Fault α} :
    Ensures (call c k) Q ↔ ∀ r, Ensures (k r) (fun trace o => Q (⟨c, r⟩ :: trace) o) := by
  constructor
  · intro h r trace o hr
    exact h _ _ (.call hr)
  · rintro h _ _ ⟨⟩
    exact h _ _ _ ‹_›

@[simp] theorem ensures_perform {c : Call}
    {Q : List (Event Answer) → Except Fault (Answer c) → Prop} :
    Ensures (perform c) Q ↔ ∀ r, Q [⟨c, r⟩] (.ok r) := by
  unfold perform
  simp only [ensures_call, ensures_pure]

/-- **The rule for a sequence**: what is ensured of the first part by any
of its outcomes must be enough for the second. -/
theorem Ensures.bind {p : Prog Call Answer Fault α} {f : α → Prog Call Answer Fault β}
    {R : List (Event Answer) → Except Fault β → Prop} (hp : Ensures p Q)
    (hfault : ∀ trace e, Q trace (.error e) → R trace (.error e))
    (hf : ∀ front a, Q front (.ok a) →
      Ensures (f a) (fun trace o => R (front ++ trace) o)) :
    Ensures (p >>= f) R := by
  intro trace o h
  obtain ⟨e, rfl, he⟩ | ⟨a, front, rest, rfl, ha, hr⟩ := runs_bind_iff.mp h
  · exact hfault trace e (hp trace _ he)
  · exact hf front a (hp front _ ha) rest o hr

/-! ## What some run does -/

/-- **Some run of `p` satisfies `Q`.** -/
def Can (p : Prog Call Answer Fault α)
    (Q : List (Event Answer) → Except Fault α → Prop) : Prop :=
  ∃ trace o, Runs p trace o ∧ Q trace o

theorem Can.mono {p : Prog Call Answer Fault α} (h : Can p Q)
    (hQ : ∀ trace o, Q trace o → Q' trace o) : Can p Q' := by
  obtain ⟨trace, o, hr, hq⟩ := h
  exact ⟨trace, o, hr, hQ trace o hq⟩

theorem not_ensures_iff {p : Prog Call Answer Fault α} :
    ¬ Ensures p Q ↔ Can p (fun trace o => ¬ Q trace o) := by
  unfold Ensures Can
  simp only [not_forall, exists_prop]

theorem Can.not_ensures {p : Prog Call Answer Fault α}
    (h : Can p (fun trace o => ¬ Q trace o)) : ¬ Ensures p Q :=
  not_ensures_iff.mpr h

/-- A program some of whose runs satisfy `Q`, all of whose satisfy `Q'`. -/
theorem Can.and_ensures {p : Prog Call Answer Fault α} (h : Can p Q) (h' : Ensures p Q') :
    Can p (fun trace o => Q trace o ∧ Q' trace o) := by
  obtain ⟨trace, o, hr, hq⟩ := h
  exact ⟨trace, o, hr, hq, h' trace o hr⟩

/-- A program that ends in a certain way for certain answers can end so,
with a trace that has these answers. -/
theorem can_of_outcome (answers : (c : Call) → Answer c) {p : Prog Call Answer Fault α}
    {o : Except Fault α} (h : outcome answers p = o) :
    Can p (fun trace o' => o' = o ∧ ∀ e ∈ trace, e.2 = answers e.1) :=
  ⟨_, _, runs_run answers p, h, fun _ he => answer_of_mem_run answers p he⟩

/-- What every run does, the run with certain answers does. -/
theorem Ensures.can {p : Prog Call Answer Fault α} (h : Ensures p Q)
    (answers : (c : Call) → Answer c) :
    Can p (fun trace o => Q trace o ∧ ∀ e ∈ trace, e.2 = answers e.1) :=
  ⟨_, _, runs_run answers p, h _ _ (runs_run answers p),
    fun _ he => answer_of_mem_run answers p he⟩

@[simp] theorem can_pure {a : α} :
    Can (pure a : Prog Call Answer Fault α) Q ↔ Q [] (.ok a) := by
  constructor
  · rintro ⟨_, _, ⟨⟩, h⟩
    exact h
  · intro h
    exact ⟨_, _, .pure a, h⟩

@[simp] theorem can_pure' {a : α} :
    Can (Pure.pure a : Prog Call Answer Fault α) Q ↔ Q [] (.ok a) :=
  can_pure

@[simp] theorem can_fault {f : Fault} :
    Can (fault f : Prog Call Answer Fault α) Q ↔ Q [] (.error f) := by
  constructor
  · rintro ⟨_, _, ⟨⟩, h⟩
    exact h
  · intro h
    exact ⟨_, _, .fault f, h⟩

@[simp] theorem can_call {c : Call} {k : Answer c → Prog Call Answer Fault α} :
    Can (call c k) Q ↔ ∃ r, Can (k r) (fun trace o => Q (⟨c, r⟩ :: trace) o) := by
  constructor
  · rintro ⟨_, _, ⟨⟩, h⟩
    exact ⟨_, _, _, ‹_›, h⟩
  · rintro ⟨r, trace, o, hr, h⟩
    exact ⟨_, _, .call hr, h⟩

@[simp] theorem can_perform {c : Call}
    {Q : List (Event Answer) → Except Fault (Answer c) → Prop} :
    Can (perform c) Q ↔ ∃ r, Q [⟨c, r⟩] (.ok r) := by
  unfold perform
  simp only [can_call, can_pure]

/-- The rule for a sequence: a run of the first part that ends with a
value, followed by a run of the second. -/
theorem Can.bind {p : Prog Call Answer Fault α} {f : α → Prog Call Answer Fault β}
    {R : List (Event Answer) → Except Fault β → Prop}
    (hp : Can p (fun front o =>
      ∃ a, o = .ok a ∧ Can (f a) (fun trace o => R (front ++ trace) o))) :
    Can (p >>= f) R := by
  obtain ⟨front, _, ha, a, rfl, trace, o, hr, h⟩ := hp
  exact ⟨_, _, ha.bind hr, h⟩

/-- The rule for a sequence whose first part can fault. -/
theorem Can.bind_fault {p : Prog Call Answer Fault α} (f : α → Prog Call Answer Fault β)
    {R : List (Event Answer) → Except Fault β → Prop}
    (hp : Can p (fun front o => ∃ e, o = .error e ∧ R front (.error e))) :
    Can (p >>= f) R := by
  obtain ⟨front, _, he, e, rfl, h⟩ := hp
  exact ⟨_, _, he.bind_fault f, h⟩

/-! ## The calls a program can make -/

/-- **The reach of a program**: whatever the answers, it makes only calls
in `S` and fails only in ways in `F`. -/
def Within (S : Call → Prop) (F : Fault → Prop) : Prog Call Answer Fault α → Prop
  | pure _ => True
  | fault f => F f
  | call c k => S c ∧ ∀ r, (k r).Within S F

variable {S S' : Call → Prop} {F F' : Fault → Prop}

@[simp] theorem within_pure {a : α} :
    (pure a : Prog Call Answer Fault α).Within S F ↔ True := Iff.rfl

@[simp] theorem within_pure' {a : α} :
    (Pure.pure a : Prog Call Answer Fault α).Within S F ↔ True := Iff.rfl

@[simp] theorem within_fault {f : Fault} :
    (fault f : Prog Call Answer Fault α).Within S F ↔ F f := Iff.rfl

@[simp] theorem within_call {c : Call} {k : Answer c → Prog Call Answer Fault α} :
    (call c k).Within S F ↔ S c ∧ ∀ r, (k r).Within S F := Iff.rfl

@[simp] theorem within_perform {c : Call} :
    (perform c : Prog Call Answer Fault (Answer c)).Within S F ↔ S c := by
  unfold perform
  simp only [within_call, within_pure, implies_true, and_true]

/-- The rule for a call followed by the rest of the program. -/
theorem Within.perform_bind {c : Call} {f : Answer c → Prog Call Answer Fault β}
    (hc : S c) (hf : ∀ r, (f r).Within S F) : (perform c >>= f).Within S F :=
  ⟨hc, hf⟩

theorem Within.bind {p : Prog Call Answer Fault α} {f : α → Prog Call Answer Fault β}
    (hp : p.Within S F) (hf : ∀ a, (f a).Within S F) : (p >>= f).Within S F := by
  induction p with
  | pure a => exact hf a
  | fault e => exact hp
  | call c k ih => exact ⟨hp.1, fun r => ih r (hp.2 r)⟩

theorem Within.mono {p : Prog Call Answer Fault α} (hp : p.Within S F)
    (hS : ∀ c, S c → S' c) (hF : ∀ f, F f → F' f) : p.Within S' F' := by
  induction p with
  | pure a => exact trivial
  | fault e => exact hF e hp
  | call c k ih => exact ⟨hS c hp.1, fun r => ih r (hp.2 r)⟩

/-- What a bound on the reach says about a run. -/
theorem Within.ensures {p : Prog Call Answer Fault α} (hp : p.Within S F) :
    Ensures p (fun trace o => (∀ e ∈ trace, S e.1) ∧ ∀ f, o = .error f → F f) := by
  induction p with
  | pure a => simp
  | fault e => simpa using hp
  | call c k ih =>
    rw [ensures_call]
    intro r
    refine (ih r (hp.2 r)).mono (fun trace o h => ⟨?_, h.2⟩)
    rintro e (_ | he)
    · exact hp.1
    · exact h.1 e ‹_›

/-! ## The values a program ends with -/

/-- **The values of a program**: every value it ends with is in `V`. -/
def Yields (V : α → Prop) : Prog Call Answer Fault α → Prop
  | pure a => V a
  | fault _ => True
  | call _ k => ∀ r, (k r).Yields V

variable {V V' : α → Prop} {W : β → Prop}

theorem Yields.perform_bind {c : Call} {f : Answer c → Prog Call Answer Fault β}
    (hf : ∀ r, (f r).Yields W) : (perform c >>= f).Yields W :=
  hf

theorem Yields.bind {p : Prog Call Answer Fault α} {f : α → Prog Call Answer Fault β}
    (hp : p.Yields V) (hf : ∀ a, V a → (f a).Yields W) : (p >>= f).Yields W := by
  induction p with
  | pure a => exact hf a hp
  | fault e => exact trivial
  | call c k ih => exact fun r => ih r (hp r)

theorem Yields.mono {p : Prog Call Answer Fault α} (hp : p.Yields V)
    (hV : ∀ a, V a → V' a) : p.Yields V' := by
  induction p with
  | pure a => exact hV a hp
  | fault e => exact trivial
  | call c k ih => exact fun r => ih r (hp r)

theorem Yields.and {p : Prog Call Answer Fault α} (h : p.Yields V) (h' : p.Yields V') :
    p.Yields (fun a => V a ∧ V' a) := by
  induction p with
  | pure a => exact ⟨h, h'⟩
  | fault e => exact trivial
  | call c k ih => exact fun r => ih r (h r) (h' r)

theorem yields_true (p : Prog Call Answer Fault α) : p.Yields (fun _ => True) := by
  induction p with
  | pure a => exact trivial
  | fault e => exact trivial
  | call c k ih => exact ih

/-- What a bound on the values says about a run. -/
theorem Yields.ensures {p : Prog Call Answer Fault α} (hp : p.Yields V) :
    Ensures p (fun _ o => ∀ a, o = .ok a → V a) := by
  induction p with
  | pure a => exact ensures_pure.mpr (fun b hb => Except.ok.inj hb ▸ hp)
  | fault e => exact ensures_fault.mpr (fun _ h => nomatch h)
  | call c k ih => exact ensures_call.mpr (fun r => ih r (hp r))

/-! ## Programs that do not fail -/

variable {E : List (Event Answer) → Prop} {R R' : List (Event Answer) → α → Prop}
  {T : List (Event Answer) → β → Prop}

/-- **Every run of `p` ends with a value** and satisfies `R`, unless its
trace satisfies `E`. -/
abbrev ReturnsUnless (E : List (Event Answer) → Prop) (p : Prog Call Answer Fault α)
    (R : List (Event Answer) → α → Prop) : Prop :=
  Ensures p (fun trace o => E trace ∨ ∃ a, o = .ok a ∧ R trace a)

/-- **Every run of `p` ends with a value**, and satisfies `R`. -/
abbrev Returns (p : Prog Call Answer Fault α) (R : List (Event Answer) → α → Prop) : Prop :=
  Ensures p (fun trace o => ∃ a, o = .ok a ∧ R trace a)

theorem returns_pure {a : α} (h : R [] a) :
    Returns (pure a : Prog Call Answer Fault α) R :=
  ensures_pure.mpr ⟨a, rfl, h⟩

theorem Returns.mono {p : Prog Call Answer Fault α} (h : Returns p R)
    (hR : ∀ trace a, R trace a → R' trace a) : Returns p R' := by
  refine Ensures.mono h ?_
  rintro trace o ⟨a, ho, ha⟩
  exact ⟨a, ho, hR trace a ha⟩

theorem Returns.unless {p : Prog Call Answer Fault α} (h : Returns p R) :
    ReturnsUnless E p R :=
  Ensures.mono h (fun _ _ => Or.inr)

theorem Returns.and_ensures {Q : List (Event Answer) → Except Fault α → Prop}
    {p : Prog Call Answer Fault α} (h : Returns p R) (h' : Ensures p Q) :
    Returns p (fun trace a => R trace a ∧ Q trace (.ok a)) := by
  rintro trace o hr
  obtain ⟨a, rfl, ha⟩ := h trace o hr
  exact ⟨a, rfl, ha, h' trace _ hr⟩

/-- The rule for a sequence whose first part does not fail. -/
theorem Returns.bind {p : Prog Call Answer Fault α} {f : α → Prog Call Answer Fault β}
    {Q : List (Event Answer) → Except Fault β → Prop} (hp : Returns p R)
    (hf : ∀ front a, R front a → Ensures (f a) (fun trace o => Q (front ++ trace) o)) :
    Ensures (p >>= f) Q := by
  refine Ensures.bind hp ?_ ?_
  · rintro trace e ⟨a, ho, -⟩
    exact absurd ho (by simp)
  · rintro front _ ⟨a, ho, ha⟩
    obtain rfl := Except.ok.inj ho
    exact hf front _ ha

theorem Returns.map {p : Prog Call Answer Fault α} {g : α → β} (hp : Returns p R)
    (hg : ∀ trace a, R trace a → T trace (g a)) :
    Returns (p >>= fun a => Pure.pure (g a)) T := by
  refine hp.bind (fun front a ha => returns_pure ?_)
  rw [List.append_nil]
  exact hg front a ha

theorem ReturnsUnless.mono {E' : List (Event Answer) → Prop} {p : Prog Call Answer Fault α}
    (h : ReturnsUnless E p R) (hE : ∀ trace, E trace → E' trace)
    (hR : ∀ trace a, R trace a → R' trace a) : ReturnsUnless E' p R' := by
  refine Ensures.mono h ?_
  rintro trace o (he | ⟨a, ho, ha⟩)
  · exact Or.inl (hE trace he)
  · exact Or.inr ⟨a, ho, hR trace a ha⟩

theorem ReturnsUnless.and_ensures {Q : List (Event Answer) → Except Fault α → Prop}
    {p : Prog Call Answer Fault α} (h : ReturnsUnless E p R) (h' : Ensures p Q) :
    ReturnsUnless E p (fun trace a => R trace a ∧ Q trace (.ok a)) := by
  rintro trace o hr
  obtain he | ⟨a, rfl, ha⟩ := h trace o hr
  · exact Or.inl he
  · exact Or.inr ⟨a, rfl, ha, h' trace _ hr⟩

/-- The rule for a sequence, where what has come about in the first part does
not go away. -/
theorem ReturnsUnless.bind {p : Prog Call Answer Fault α} {f : α → Prog Call Answer Fault β}
    (hE : ∀ front rest, E front → E (front ++ rest)) (hp : ReturnsUnless E p R)
    (hf : ∀ front a, R front a →
      ReturnsUnless (fun rest => E (front ++ rest)) (f a) (fun rest b => T (front ++ rest) b)) :
    ReturnsUnless E (p >>= f) T := by
  refine Ensures.bind hp ?_ ?_
  · rintro trace e (he | ⟨a, ho, -⟩)
    · exact Or.inl he
    · exact absurd ho (by simp)
  · rintro front _ (he | ⟨a, ho, ha⟩)
    · exact fun rest _ _ => Or.inl (hE front rest he)
    · obtain rfl := Except.ok.inj ho
      exact hf front _ ha

/-- A program that cannot fail, with the calls it makes and the values it ends
with. -/
theorem Within.returns {p : Prog Call Answer Fault α} (hp : p.Within S (fun _ => False))
    (hV : p.Yields V) : Returns p (fun trace a => (∀ e ∈ trace, S e.1) ∧ V a) := by
  refine (hp.ensures.and hV.ensures).mono ?_
  rintro trace o ⟨⟨hcalls, hfault⟩, hvalues⟩
  cases o with
  | error f => exact (hfault f rfl).elim
  | ok a => exact ⟨a, rfl, hcalls, hvalues a rfl⟩

end Prog

end Interaction
