import VoloDB.AccessPath
import VoloDB.TupleOutcome

/-!
# The hint and the order of the key columns

An operation names its key columns, and NDB matches the conditions on them
by name, so that it does not matter in which order a client lists them
(`Store.select_columnPairs_perm`). The hint a transaction is started with
has no names: its parts are the values of the columns flagged as
distribution keys, in the order of the client, and NDB takes them for the
distribution keys of the table in the order of the table.

So two operations that differ in the order of their key columns may be
started with different hints. They never are if all distribution keys have
the same value – there may be only one of them – and otherwise there is an
order that gives another hint (`sameStart_iff`).
-/

namespace VoloDB

open Interaction NDBMessageProcessor NDBMessageExecutor

/-! ## The conditions on the key columns -/

theorem Store.satisfies_perm {R : Type} (store : Store R)
    {conditions conditions' : List (Bytes × Bytes)} (h : conditions'.Perm conditions)
    (row : R) : store.satisfies conditions' row = store.satisfies conditions row := by
  unfold satisfies
  rw [Bool.eq_iff_iff, List.all_eq_true, List.all_eq_true]
  exact forall_congr' (fun condition => imp_congr_left h.mem_iff)

/-- The rows that are selected do not depend on the order of the key
columns. -/
theorem Store.select_columnPairs_perm {R : Type} (store : Store R)
    {columns columns' : List ColumnValue} (h : columns'.Perm columns) :
    store.select (columnPairs columns') = store.select (columnPairs columns) :=
  congrArg (fun p => store.rows.filter p)
    (funext (fun row => store.satisfies_perm (h.map _) row))

/-! ## The hint -/

namespace Hints

/-- **Operations that differ only in the order of their key columns.** -/
inductive Reordered : Message → Message → Prop
  | set (operation : SetOperation) {primaryKey : List ColumnValue}
      (h : primaryKey.Perm operation.primaryKey) :
    Reordered (.set operation) (.set { operation with primaryKey := primaryKey })
  | get (operation : GetOperation) {primaryKey : List ColumnValue}
      (h : primaryKey.Perm operation.primaryKey) :
    Reordered (.get operation) (.get { operation with primaryKey := primaryKey })
  | delete (operation : DeleteOperation) {primaryKey : List ColumnValue}
      (h : primaryKey.Perm operation.primaryKey) :
    Reordered (.delete operation) (.delete { operation with primaryKey := primaryKey })

/-- **Two operations start their transactions alike**: on any store,
`_startTransaction` makes the same calls with the same key parts, and comes
to the same end, whatever the calls answer. -/
def SameStart (message message' : Message) : Prop :=
  ∀ storeName, startTransaction message'.primaryKey storeName
    = startTransaction message.primaryKey storeName

/-- The distribution keys all have the same value. -/
def SameValues (columns : List ColumnValue) : Prop :=
  ∀ a ∈ distributionKeys columns, ∀ b ∈ distributionKeys columns, a.value = b.value

theorem Reordered.perm {message message' : Message} (h : Reordered message message') :
    message'.primaryKey.Perm message.primaryKey := by
  cases h with
  | set operation h => exact h
  | get operation h => exact h
  | delete operation h => exact h

/-- Any order of the key columns is that of some operation. -/
theorem Reordered.of_perm {message : Message} (hm : message.isManipulation = true)
    {columns : List ColumnValue} (h : columns.Perm message.primaryKey) :
    ∃ message', Reordered message message' ∧ message'.primaryKey = columns := by
  cases message with
  | set operation => exact ⟨_, .set operation h, rfl⟩
  | get operation => exact ⟨_, .get operation h, rfl⟩
  | delete operation => exact ⟨_, .delete operation h, rfl⟩
  | _ => exact absurd hm Bool.false_ne_true

theorem hintParts_perm {columns columns' : List ColumnValue} (h : columns'.Perm columns) :
    (hintParts columns').Perm (hintParts columns) :=
  (h.filter isDistributionKey).map _

theorem hintParts_eq_nil_iff (columns : List ColumnValue) :
    hintParts columns = [] ↔ getNoDistributionKeyIndexes columns = 0 := by
  rw [← length_distributionKeys, hintParts_eq, List.map_eq_nil_iff, List.length_eq_zero_iff]

/-- The array `_startTransaction` hands over, if it hands over one. -/
def handedHint (columns : List ColumnValue) : Hint :=
  if hintParts columns = [] then [] else (hintParts columns).map some ++ [some .terminator]

/-- **What `_startTransaction` does**: look up the table, and start a
transaction with the key parts. -/
theorem startTransaction_eq (columns : List ColumnValue) (storeName : Bytes) :
    startTransaction columns storeName
      = tableInfoOf (cStr storeName) storeName >>= fun tableInfo =>
          match tableInfo with
          | none => pure none
          | some table => perform (.startTransaction table (handedHint columns)) := by
  unfold startTransaction handedHint
  refine congrArg (Bind.bind (tableInfoOf (cStr storeName) storeName)) (funext fun tableInfo => ?_)
  cases tableInfo with
  | none => rfl
  | some table =>
    dsimp only
    by_cases h : hintParts columns = []
    · rw [if_neg (by rw [(hintParts_eq_nil_iff columns).mp h]; exact Nat.lt_irrefl 0), if_pos h]
    · rw [if_pos (Nat.pos_of_ne_zero (mt (hintParts_eq_nil_iff columns).mpr h)), if_neg h,
        getHint_newHint]

theorem handedHint_injective {columns columns' : List ColumnValue}
    (h : handedHint columns' = handedHint columns) :
    hintParts columns' = hintParts columns := by
  unfold handedHint at h
  split at h
  · next h' =>
    split at h
    · next h'' => rw [h', h'']
    · simp at h
  · split at h
    · simp at h
    · have hmap := List.append_cancel_right h
      exact List.map_injective_iff.mpr (fun _ _ => Option.some.inj) hmap

/-- A description of a table with a key of one column. -/
def oneColumn : Table := ⟨[⟨ascii "id", true⟩], 0, by decide, by decide⟩

/-- Two lists of columns start transactions alike exactly where they give
the same key parts. -/
theorem startTransaction_congr_iff (columns columns' : List ColumnValue) :
    (∀ storeName, startTransaction columns' storeName = startTransaction columns storeName)
      ↔ hintParts columns' = hintParts columns := by
  constructor
  · intro h
    -- a run in which the table is found in the cache
    have hrun : (startTransaction columns []).Runs
        [⟨.cacheGet [], some oneColumn⟩,
          ⟨.startTransaction oneColumn (handedHint columns), none⟩] (.ok none) := by
      rw [startTransaction_eq]
      exact .call (.call (.pure none))
    rw [← h, startTransaction_eq] at hrun
    obtain ⟨r, rest, htrace, hrest⟩ := Prog.runs_call_iff.mp hrun
    obtain ⟨hget, rfl⟩ := List.cons.inj htrace
    obtain rfl := eq_of_heq (Sigma.mk.inj hget).2
    obtain ⟨r, rest, htrace, -⟩ := Prog.runs_call_iff.mp hrest
    have hstart := congrArg Sigma.fst (List.cons.inj htrace).1
    exact (handedHint_injective (Call.startTransaction.inj hstart).2).symm
  · intro h storeName
    have hhint : handedHint columns' = handedHint columns := by
      unfold handedHint
      rw [h]
    rw [startTransaction_eq, startTransaction_eq, hhint]

/-- **The key parts are the same in every order exactly where all
distribution keys have the same value.** -/
theorem hintParts_invariant_iff (columns : List ColumnValue) :
    (∀ columns', columns'.Perm columns → hintParts columns' = hintParts columns)
      ↔ SameValues columns := by
  constructor
  · intro h
    -- listed first, a distribution key gives the first part
    have hfirst : ∀ a ∈ distributionKeys columns,
        (hintParts columns).head? = some (.value a.value) := by
      intro a ha
      obtain ⟨hmem, hkey⟩ := List.mem_filter.mp ha
      rw [← h _ (List.perm_cons_erase hmem).symm, hintParts_cons_of_pos _ hkey, List.head?_cons]
    intro a ha b hb
    have hab := (hfirst a ha).symm.trans (hfirst b hb)
    exact KeyPart.value.inj (Option.some.inj hab)
  · intro h columns' hperm
    have hall : ∀ part ∈ hintParts columns, ∀ part' ∈ hintParts columns, part = part' := by
      intro part hpart part' hpart'
      obtain ⟨a, ha, rfl⟩ := List.mem_map.mp hpart
      obtain ⟨b, hb, rfl⟩ := List.mem_map.mp hpart'
      rw [h a ha b hb]
    cases hparts : hintParts columns with
    | nil => exact List.perm_nil.mp (hparts ▸ hintParts_perm hperm)
    | cons part parts =>
      have hrep : hintParts columns = List.replicate (parts.length + 1) part := by
        refine List.eq_replicate_iff.mpr ⟨by rw [hparts, List.length_cons], fun b hb => ?_⟩
        exact hall b hb part (hparts ▸ List.mem_cons_self)
      have hp := hintParts_perm hperm
      rw [hrep] at hp
      rw [← hparts, hrep]
      exact List.perm_replicate.mp hp

/-- **The hint does not depend on the order of the key columns exactly
where all distribution keys of the operation have the same value.** -/
theorem sameStart_iff (message : Message) :
    (∀ message', Reordered message message' → SameStart message message')
      ↔ SameValues message.primaryKey := by
  rw [← hintParts_invariant_iff]
  constructor
  · intro h columns hperm
    by_cases hm : message.isManipulation = true
    · obtain ⟨message', hreordered, rfl⟩ := Reordered.of_perm hm hperm
      exact (startTransaction_congr_iff _ _).mp (h message' hreordered)
    · have hnil : message.primaryKey = [] := by
        cases message <;> first | rfl | exact absurd rfl hm
      rw [hnil] at hperm ⊢
      rw [List.perm_nil.mp hperm]
  · intro h message' hreordered
    exact (startTransaction_congr_iff _ _).mpr (h message'.primaryKey hreordered.perm)

/-- A column flagged as a distribution key. -/
def keyColumn (name value : String) : ColumnValue :=
  ⟨ascii name, none, none, some true, ascii value⟩

/-- A `DELETE` with two distribution keys, listed in either order. -/
theorem not_sameStart_swapped :
    Reordered (.delete ⟨[⟨ascii "s"⟩], [keyColumn "a" "1", keyColumn "b" "2"]⟩)
        (.delete ⟨[⟨ascii "s"⟩], [keyColumn "b" "2", keyColumn "a" "1"]⟩)
      ∧ ¬ SameStart (.delete ⟨[⟨ascii "s"⟩], [keyColumn "a" "1", keyColumn "b" "2"]⟩)
        (.delete ⟨[⟨ascii "s"⟩], [keyColumn "b" "2", keyColumn "a" "1"]⟩) := by
  refine ⟨.delete ⟨[⟨ascii "s"⟩], [keyColumn "a" "1", keyColumn "b" "2"]⟩ (.swap _ _ _),
    fun h => ?_⟩
  have hparts := (startTransaction_congr_iff _ _).mp h
  revert hparts
  decide

end Hints

end VoloDB
