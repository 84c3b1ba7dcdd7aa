import Mathlib.Algebra.BigOperators.Group.Finset.Basic
import Mathlib.Algebra.Order.Group.Multiset
import Mathlib.Data.Finmap

/-!
# Tables with a primary key

A table holds rows, each under its key: what its key columns come to when
they are compared. Values that differ may count as the same there – the case
of a letter need not matter – and `code` says what a value of a column counts
as. The rows of a table carry the keys they are held under
(`Table.keyed`), so a row is found by its key exactly where it is selected by
conditions on the key columns (`Table.select_key`).

A `Database` has a table for each store. The writes of a transaction are
applied one after another, and refused together when one of them does not
give a value to each key column and only to these (`Database.applyAll`);
what is held under a key they do not name stays as it is
(`Database.find_applyAll`).
-/

namespace Keyed

variable {τ κ ν γ : Type} [DecidableEq κ]

/-! ## Rows -/

/-- **A row**: the values of its columns, as far as they have one. -/
abbrev Row (κ ν : Type) : Type := κ → Option ν

namespace Row

/-- No column has a value. -/
def empty : Row κ ν := fun _ => none

/-- The row after columns have been given values; the last one counts. -/
def set (row : Row κ ν) (values : List (κ × ν)) : Row κ ν :=
  values.foldl (fun row value => Function.update row value.1 (some value.2)) row

/-- What the key columns come to. -/
def key (code : κ → ν → γ) (keys : List κ) (row : Row κ ν) : List (Option γ) :=
  keys.map (fun k => (row k).map (code k))

/-- The row satisfies conditions on the values of its columns. -/
def Satisfies (code : κ → ν → γ) (conditions : List (κ × ν)) (row : Row κ ν) : Prop :=
  ∀ c ∈ conditions, (row c.1).map (code c.1) = some (code c.1 c.2)

instance [DecidableEq γ] (code : κ → ν → γ) (conditions : List (κ × ν)) (row : Row κ ν) :
    Decidable (row.Satisfies code conditions) :=
  inferInstanceAs (Decidable (∀ c ∈ conditions, _))

variable {row : Row κ ν} {values : List (κ × ν)} {k : κ} {v : ν}

theorem set_append (row : Row κ ν) (values more : List (κ × ν)) :
    row.set (values ++ more) = (row.set values).set more :=
  List.foldl_append

/-- A column that is given no value keeps what it has. -/
theorem set_of_notMem (h : k ∉ values.map Prod.fst) : row.set values k = row k := by
  induction values generalizing row with
  | nil => rfl
  | cons value values ih =>
    rw [List.map_cons, List.mem_cons, not_or] at h
    exact (ih h.2).trans (Function.update_of_ne h.1 _ _)

/-- A column has the last value it was given. -/
theorem set_of_last (front rest : List (κ × ν)) (h : k ∉ rest.map Prod.fst) :
    row.set (front ++ (k, v) :: rest) k = some v := by
  rw [set_append]
  show set (Function.update (set row front) k (some v)) rest k = some v
  rw [set_of_notMem h, Function.update_self]

/-- What a column is given, it has, whatever row is written over. -/
theorem set_of_empty_set (h : empty.set values k = some v) : row.set values k = some v := by
  have hmem : k ∈ values.map Prod.fst := by
    by_contra hnot
    rw [set_of_notMem hnot] at h
    exact nomatch h
  induction values using List.reverseRecOn with
  | nil => exact absurd hmem List.not_mem_nil
  | append_singleton values value ih =>
    rw [set_append] at h ⊢
    change Function.update (empty.set values) value.1 (some value.2) k = some v at h
    show Function.update (set row values) value.1 (some value.2) k = some v
    by_cases hk : k = value.1
    · subst hk
      rwa [Function.update_self] at h ⊢
    · rw [Function.update_of_ne hk] at h ⊢
      rw [List.map_append, List.mem_append] at hmem
      exact ih h (hmem.resolve_right (fun hv => hk (List.mem_singleton.mp hv)))

/-- Where each column is given one value, it has this value. -/
theorem set_of_mem (hnodup : (values.map Prod.fst).Nodup) (hmem : (k, v) ∈ values) :
    row.set values k = some v := by
  obtain ⟨front, rest, rfl⟩ := List.append_of_mem hmem
  rw [List.map_append, List.map_cons] at hnodup
  exact set_of_last front rest (List.nodup_cons.mp (List.nodup_append'.mp hnodup).2.1).1

/-- Values for other columns leave the key as it is. -/
theorem key_set {code : κ → ν → γ} {keys : List κ}
    (h : ∀ k ∈ keys, k ∉ values.map Prod.fst) :
    (row.set values).key code keys = row.key code keys :=
  List.map_congr_left (fun k hk => by rw [set_of_notMem (h k hk)])

end Row

/-- The conditions give one value to each key column, and to no other. -/
def IsKey (keys : List κ) (conditions : List (κ × ν)) : Prop :=
  (conditions.map Prod.fst).Perm keys

instance (keys : List κ) (conditions : List (κ × ν)) : Decidable (IsKey keys conditions) :=
  inferInstanceAs (Decidable (List.Perm _ _))

/-- The key that conditions on the key columns ask for. -/
def keyOf (code : κ → ν → γ) (keys : List κ) (conditions : List (κ × ν)) : List (Option γ) :=
  (Row.empty.set conditions).key code keys

/-- A row satisfies conditions on the key columns exactly when it has the key
they ask for. -/
theorem satisfies_iff_key_eq {code : κ → ν → γ} {keys : List κ} {conditions : List (κ × ν)}
    (hkeys : keys.Nodup) (h : IsKey keys conditions) (row : Row κ ν) :
    row.Satisfies code conditions ↔ row.key code keys = keyOf code keys conditions := by
  have hnodup : (conditions.map Prod.fst).Nodup := (List.Perm.nodup_iff h).mpr hkeys
  unfold keyOf Row.key
  rw [List.map_inj_left]
  constructor
  · intro hrow k hk
    obtain ⟨⟨k', v⟩, hmem, rfl⟩ := List.mem_map.mp (h.mem_iff.mpr hk)
    rw [Row.set_of_mem hnodup hmem]
    exact hrow _ hmem
  · intro hkey c hc
    rw [hkey c.1 (h.mem_iff.mp (List.mem_map_of_mem hc)), Row.set_of_mem hnodup hc]
    rfl

/-! ## Tables -/

variable [DecidableEq γ]

/-- **A table**: its rows, each under the key it has. -/
structure Table (code : κ → ν → γ) (keys : List κ) where
  rows : Finmap (fun _ : List (Option γ) => Row κ ν)
  keyed : ∀ key row, rows.lookup key = some row → row.key code keys = key

namespace Table

variable {code : κ → ν → γ} {keys : List κ}

/-- A table without rows. -/
def empty : Table code keys where
  rows := ∅
  keyed _ _ h := nomatch h

/-- The row that is held under a key. -/
def find (t : Table code keys) (key : List (Option γ)) : Option (Row κ ν) := t.rows.lookup key

/-- **The rows that satisfy conditions.** -/
def select (t : Table code keys) (conditions : List (κ × ν)) : Multiset (Row κ ν) :=
  ∑ key ∈ t.rows.keys,
    (((t.find key).filter (fun row => row.Satisfies code conditions)).toList :
      Multiset (Row κ ν))

/-- **Write a row**: the row under the key is given values, and put there if
there was none. -/
def put (t : Table code keys) (conditions values : List (κ × ν))
    (hvalues : ∀ k ∈ keys, k ∉ values.map Prod.fst) : Table code keys where
  rows := t.rows.insert (keyOf code keys conditions)
    (((t.find (keyOf code keys conditions)).getD (Row.empty.set conditions)).set values)
  keyed key row h := by
    by_cases hkey : key = keyOf code keys conditions
    · subst hkey
      rw [Finmap.lookup_insert, Option.some.injEq] at h
      rw [← h, Row.key_set hvalues]
      cases hold : t.find (keyOf code keys conditions) with
      | none => rfl
      | some old => exact t.keyed _ old hold
    · rw [Finmap.lookup_insert_of_ne _ hkey] at h
      exact t.keyed key row h

/-- **Remove the row** under a key. -/
def remove (t : Table code keys) (conditions : List (κ × ν)) : Table code keys where
  rows := t.rows.erase (keyOf code keys conditions)
  keyed key row h := by
    by_cases hkey : key = keyOf code keys conditions
    · rw [hkey, Finmap.lookup_erase] at h
      exact nomatch h
    · rw [Finmap.lookup_erase_ne hkey] at h
      exact t.keyed key row h

variable {t : Table code keys} {conditions values : List (κ × ν)}
  {hvalues : ∀ k ∈ keys, k ∉ values.map Prod.fst} {key : List (Option γ)}

/-- What was written is there. -/
theorem find_put_self : (t.put conditions values hvalues).find (keyOf code keys conditions)
    = some (((t.find (keyOf code keys conditions)).getD (Row.empty.set conditions)).set values) :=
  Finmap.lookup_insert t.rows

theorem find_put_of_ne (h : key ≠ keyOf code keys conditions) :
    (t.put conditions values hvalues).find key = t.find key :=
  Finmap.lookup_insert_of_ne t.rows h

theorem find_remove_of_ne (h : key ≠ keyOf code keys conditions) :
    (t.remove conditions).find key = t.find key :=
  Finmap.lookup_erase_ne h

/-- **Selecting by a key is finding it.** -/
theorem select_key (hkeys : keys.Nodup) (h : IsKey keys conditions) :
    t.select conditions = ((t.find (keyOf code keys conditions)).toList : Multiset (Row κ ν)) := by
  unfold select
  rw [Finset.sum_eq_single (keyOf code keys conditions)]
  · -- the row under the key satisfies the conditions
    cases hfind : t.find (keyOf code keys conditions) with
    | none => rfl
    | some row =>
      have hrow := (satisfies_iff_key_eq hkeys h row).mpr (t.keyed _ row hfind)
      rw [Option.filter_some_pos (by simpa using hrow)]
  · -- and a row under another key does not
    intro other _ hne
    cases hfind : t.find other with
    | none => rfl
    | some row =>
      have hrow : ¬ row.Satisfies code conditions := fun hrow =>
        hne ((t.keyed _ row hfind).symm.trans ((satisfies_iff_key_eq hkeys h row).mp hrow))
      rw [Option.filter_some_neg (by simpa using hrow)]
      rfl
  · intro hnotMem
    rw [Finmap.mem_keys, ← Finmap.lookup_eq_none] at hnotMem
    rw [show t.find _ = none from hnotMem]
    rfl

end Table

/-! ## Databases -/

/-- **A database**: a table for each store. -/
abbrev Database (code : τ → κ → ν → γ) (keys : τ → List κ) : Type :=
  (s : τ) → Table (code s) (keys s)

/-- A write, on a store. -/
inductive Write (τ κ ν : Type) where
  | put (s : τ) (conditions values : List (κ × ν))
  | remove (s : τ) (conditions : List (κ × ν))

namespace Database

variable [DecidableEq τ] {code : τ → κ → ν → γ} {keys : τ → List κ}

/-- **Apply a write**, unless it does not give a value to each key column, or
gives another value to one. -/
def apply (d : Database code keys) : Write τ κ ν → Option (Database code keys)
  | .put s conditions values =>
    if h : IsKey (keys s) conditions ∧ ∀ k ∈ keys s, k ∉ values.map Prod.fst then
      some (Function.update d s ((d s).put conditions values h.2))
    else none
  | .remove s conditions =>
    if IsKey (keys s) conditions then
      some (Function.update d s ((d s).remove conditions))
    else none

/-- Apply the writes of a transaction. -/
def applyAll (d : Database code keys) (writes : List (Write τ κ ν)) :
    Option (Database code keys) :=
  writes.foldlM apply d

/-- The write names this key of this store. -/
def Names (code : τ → κ → ν → γ) (keys : τ → List κ) (s : τ) (key : List (Option γ)) :
    Write τ κ ν → Prop
  | .put s' conditions _ => s' = s ∧ keyOf (code s') (keys s') conditions = key
  | .remove s' conditions => s' = s ∧ keyOf (code s') (keys s') conditions = key

variable {d d' : Database code keys} {s : τ} {key : List (Option γ)}

/-- A write to another key leaves what is held under this one. -/
theorem find_apply {write : Write τ κ ν} (h : d.apply write = some d')
    (hnames : ¬ Names code keys s key write) : (d' s).find key = (d s).find key := by
  cases write with
  | put s' conditions values =>
    simp only [apply] at h
    split at h
    · obtain rfl := Option.some.inj h
      by_cases hs : s = s'
      · subst hs
        rw [Function.update_self]
        exact Table.find_put_of_ne (fun hkey => hnames ⟨rfl, hkey.symm⟩)
      · rw [Function.update_of_ne hs]
    · exact nomatch h
  | remove s' conditions =>
    simp only [apply] at h
    split at h
    · obtain rfl := Option.some.inj h
      by_cases hs : s = s'
      · subst hs
        rw [Function.update_self]
        exact Table.find_remove_of_ne (fun hkey => hnames ⟨rfl, hkey.symm⟩)
      · rw [Function.update_of_ne hs]
    · exact nomatch h

/-- **What no write of a transaction names stays as it is.** -/
theorem find_applyAll {writes : List (Write τ κ ν)} (h : d.applyAll writes = some d')
    (hnames : ∀ write ∈ writes, ¬ Names code keys s key write) :
    (d' s).find key = (d s).find key := by
  induction writes generalizing d with
  | nil =>
    obtain rfl := Option.some.inj h
    rfl
  | cons write writes ih =>
    obtain ⟨middle, hfirst, hrest⟩ := Option.bind_eq_some_iff.mp h
    rw [ih hrest (fun w hw => hnames w (List.mem_cons_of_mem _ hw)),
      find_apply hfirst (hnames write List.mem_cons_self)]

/-- A write with a key, and values for other columns, is applied. -/
theorem exists_apply_put {conditions values : List (κ × ν)} (hkey : IsKey (keys s) conditions)
    (hvalues : ∀ k ∈ keys s, k ∉ values.map Prod.fst) :
    ∃ d', d.apply (.put s conditions values) = some d' := by
  simp only [apply, dif_pos (And.intro hkey hvalues)]
  exact ⟨_, rfl⟩

/-- **What a write has put is there.** -/
theorem find_of_apply_put {conditions values : List (κ × ν)}
    (h : d.apply (.put s conditions values) = some d') :
    IsKey (keys s) conditions
      ∧ (d' s).find (keyOf (code s) (keys s) conditions)
        = some ((((d s).find (keyOf (code s) (keys s) conditions)).getD
            (Row.empty.set conditions)).set values) := by
  simp only [apply] at h
  split at h
  · next hkey =>
    obtain rfl := Option.some.inj h
    refine ⟨hkey.1, ?_⟩
    rw [Function.update_self]
    exact Table.find_put_self
  · exact nomatch h

end Database

end Keyed
