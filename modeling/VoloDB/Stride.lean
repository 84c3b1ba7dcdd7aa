import Mathlib.Data.List.Basic

/-!
# Reading a list in strides

The loop `for (i = 0; i < n; i += s)` visits the **indices** `0`, `s`,
`2 * s`, … below `n`. With the stride two and an access to `i` and to
`i + 1`, it reads a flat list as a list of **pairs** – and runs past the end
of a list of odd length.
-/

namespace Stride

variable {α β : Type}

/-- The indices the loop visits from `i` on, in at most `fuel` rounds. -/
def indicesFrom (n s : Nat) : Nat → Nat → List Nat
  | 0, _ => []
  | fuel + 1, i => if i < n then i :: indicesFrom n s fuel (i + s) else []

/-- **The indices of `for (i = 0; i < n; i += s)`.** A stride of one or more
leaves the loop after `n` rounds at the latest. -/
def indices (n s : Nat) : List Nat := indicesFrom n s n 0

theorem indicesFrom_of_le {n s i : Nat} (fuel : Nat) (h : n ≤ i) :
    indicesFrom n s fuel i = [] := by
  cases fuel with
  | zero => rfl
  | succ fuel => rw [indicesFrom, if_neg (Nat.not_lt.mpr h)]

/-- Rounds beyond those the loop needs make no difference. -/
theorem indicesFrom_succ {n s : Nat} (hs : 0 < s) (fuel i : Nat) (h : n ≤ i + fuel) :
    indicesFrom n s (fuel + 1) i = indicesFrom n s fuel i := by
  induction fuel generalizing i with
  | zero =>
    have hi : n ≤ i := h
    rw [indicesFrom_of_le _ hi, indicesFrom_of_le _ hi]
  | succ fuel ih =>
    have hnext := ih (i + s) (by omega)
    rw [indicesFrom, hnext]
    rfl

/-- A loop that starts and ends one stride later visits the same indices,
one stride later. -/
theorem indicesFrom_add (n s fuel i : Nat) :
    indicesFrom (n + s) s fuel (i + s) = (indicesFrom n s fuel i).map (· + s) := by
  induction fuel generalizing i with
  | zero => rfl
  | succ fuel ih =>
    unfold indicesFrom
    by_cases h : i < n
    · rw [if_pos h, if_pos (Nat.add_lt_add_right h s), ih (i + s), List.map_cons]
    · rw [if_neg h, if_neg (fun h' => h (Nat.lt_of_add_lt_add_right h')), List.map_nil]

@[simp] theorem indices_zero (s : Nat) : indices 0 s = [] := rfl

theorem indices_add {s : Nat} (n : Nat) (hs : 0 < s) :
    indices (n + s) s = 0 :: (indices n s).map (· + s) := by
  unfold indices
  -- one round for the index zero; of the `n + s - 1` rounds left, `n` are
  -- needed
  have hfuel : ∀ k, indicesFrom n s (n + k) 0 = indicesFrom n s n 0 := by
    intro k
    induction k with
    | zero => rfl
    | succ k ih => rw [← Nat.add_assoc, indicesFrom_succ hs _ _ (by omega), ih]
  obtain ⟨k, rfl⟩ : ∃ k, s = k + 1 := ⟨s - 1, by omega⟩
  have hshift := indicesFrom_add n (k + 1) (n + k) 0
  rw [← Nat.add_assoc n k 1, indicesFrom, if_pos (by omega)]
  rw [← Nat.add_assoc n k 1] at hshift
  rw [hshift, hfuel k]

/-! ## Pairs -/

/-- The elements at `i` and at `i + 1`, where the list has both. -/
def pairAt (xs : List α) (i : Nat) : Option (α × α) :=
  match xs[i]?, xs[i + 1]? with
  | some a, some b => some (a, b)
  | _, _ => none

/-- **A flat list read as a list of pairs**, or nothing where the reading
runs past its end. -/
def pairs (xs : List α) : Option (List (α × α)) :=
  (indices xs.length 2).mapM (pairAt xs)

/-- The list of pairs, written flat. -/
def flat (ps : List (α × α)) : List α := ps.flatMap (fun p => [p.1, p.2])

@[simp] theorem flat_cons (p : α × α) (ps : List (α × α)) :
    flat (p :: ps) = p.1 :: p.2 :: flat ps := rfl

theorem flat_append (ps qs : List (α × α)) : flat (ps ++ qs) = flat ps ++ flat qs :=
  List.flatMap_append

theorem pairAt_add_two (a b : α) (xs : List α) (i : Nat) :
    pairAt (a :: b :: xs) (i + 2) = pairAt xs i := rfl

/-- The loop over all rounds fails where one of them does. -/
theorem mapM_map_add (f : Nat → Option β) (g : Nat → Option β) (is : List Nat) (s : Nat)
    (h : ∀ i, f (i + s) = g i) : (is.map (· + s)).mapM f = is.mapM g := by
  induction is with
  | nil => rfl
  | cons i is ih =>
    rw [List.map_cons, List.mapM_cons, List.mapM_cons, ih, h]

@[simp] theorem pairs_nil : pairs ([] : List α) = some [] := rfl

@[simp] theorem pairs_singleton (a : α) : pairs [a] = none := rfl

@[simp] theorem pairs_cons_cons (a b : α) (xs : List α) :
    pairs (a :: b :: xs) = (pairs xs).map ((a, b) :: ·) := by
  unfold pairs
  show (indices (xs.length + 2) 2).mapM _ = _
  rw [indices_add xs.length Nat.two_pos, List.mapM_cons,
    mapM_map_add _ (pairAt xs) _ 2 (pairAt_add_two a b xs)]
  show (some (a, b) >>= fun p => (List.mapM (pairAt xs) _ >>= fun ps => some (p :: ps))) = _
  cases (indices xs.length 2).mapM (pairAt xs) <;> rfl

/-- **Reading back what was written flat.** -/
@[simp] theorem pairs_flat (ps : List (α × α)) : pairs (flat ps) = some ps := by
  induction ps with
  | nil => rfl
  | cons p ps ih => rw [flat_cons, pairs_cons_cons, ih, Option.map_some]

end Stride
