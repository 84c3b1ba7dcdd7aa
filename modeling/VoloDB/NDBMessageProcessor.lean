import Mathlib.Data.List.AList
import VoloDB.Ndb

/-!
# Hints and buckets

`NDBMessageProcessor` does two things for the other parts of the server.
From the key columns of an operation it makes the **hint** a transaction is
started with: an array of key parts, one for every column flagged as a
distribution key, and a null part at the end. And it distributes the tuples
of a batch over the executors, a random **bucket** for each.
-/

namespace VoloDB

namespace NDBMessageProcessor

/-! ## The hint -/

/-- `iter->has_distribution_key() && iter->distribution_key()`. -/
def isDistributionKey (column : ColumnValue) : Bool :=
  column.distributionKey = some true

/-- `NDBMessageProcessor::getNoDistributionKeyIndexes`: how many columns
are flagged as distribution keys. -/
def getNoDistributionKeyIndexes (columns : List ColumnValue) : Nat :=
  columns.foldl (fun n column => if isDistributionKey column then n + 1 else n) 0

/-- An array of key parts. A slot that has not been written holds none. -/
abbrev Hint := List (Option KeyPart)

/-- The array its callers allocate, before anything is written to it. -/
def newHint (size : Nat) : Hint := List.replicate size none

/-- `hint[i] = part`, where the array has the slot. -/
def setPart (hint : Hint) (i : Nat) (part : KeyPart) : Option Hint :=
  if i < hint.length then some (hint.set i (some part)) else none

/-- The loop of `getHint`, from the slot `i` on. -/
def getHintFrom : Nat → List ColumnValue → Hint → Option Hint
  | i, [], hint => setPart hint i .terminator
  | i, column :: columns, hint =>
    if isDistributionKey column then
      match setPart hint i (.value column.value) with
      | none => none
      | some hint => getHintFrom (i + 1) columns hint
    else getHintFrom i columns hint

/-- **`NDBMessageProcessor::getHint`**: fill in the array, or fail where it
would be written past its end. -/
def getHint (columns : List ColumnValue) (hint : Hint) : Option Hint :=
  getHintFrom 0 columns hint

/-- The key parts of a list of columns. -/
def hintParts (columns : List ColumnValue) : List KeyPart :=
  (columns.filter isDistributionKey).map (fun column => .value column.value)

theorem getNoDistributionKeyIndexes_eq (columns : List ColumnValue) :
    getNoDistributionKeyIndexes columns = columns.countP isDistributionKey := by
  have h : ∀ (n : Nat) (columns : List ColumnValue),
      columns.foldl (fun n column => if isDistributionKey column then n + 1 else n) n
        = n + columns.countP isDistributionKey := by
    intro n columns
    induction columns generalizing n with
    | nil => rfl
    | cons column columns ih =>
      rw [List.foldl_cons, ih, List.countP_cons]
      split <;> omega
  unfold getNoDistributionKeyIndexes
  rw [h, Nat.zero_add]

theorem hintParts_cons_of_pos {column : ColumnValue} (columns : List ColumnValue)
    (h : isDistributionKey column = true) :
    hintParts (column :: columns) = .value column.value :: hintParts columns := by
  unfold hintParts
  rw [List.filter_cons_of_pos h, List.map_cons]

theorem hintParts_cons_of_neg {column : ColumnValue} (columns : List ColumnValue)
    (h : ¬ isDistributionKey column = true) :
    hintParts (column :: columns) = hintParts columns := by
  unfold hintParts
  rw [List.filter_cons_of_neg h]

/-- Writing the slot behind what is written. -/
theorem setPart_append (written : Hint) (slot : Option KeyPart) (rest : Hint)
    (part : KeyPart) :
    setPart (written ++ slot :: rest) written.length part
      = some ((written ++ [some part]) ++ rest) := by
  unfold setPart
  rw [if_pos (by simp), List.set_append_right _ _ (le_refl _), Nat.sub_self,
    List.set_cons_zero, List.append_assoc]
  rfl

theorem getHintFrom_append (columns : List ColumnValue) (written room : Hint)
    (h : columns.countP isDistributionKey < room.length) :
    getHintFrom written.length columns (written ++ room)
      = some (written ++ (hintParts columns).map some ++ [some .terminator]
          ++ room.drop (columns.countP isDistributionKey + 1)) := by
  induction columns generalizing written room with
  | nil =>
    obtain ⟨slot, rest, rfl⟩ := List.exists_cons_of_length_pos h
    rw [getHintFrom, setPart_append]
    simp [hintParts]
  | cons column columns ih =>
    by_cases hkey : isDistributionKey column = true
    · rw [List.countP_cons_of_pos hkey] at h ⊢
      obtain ⟨slot, rest, rfl⟩ := List.exists_cons_of_length_pos (Nat.zero_lt_of_lt h)
      have hnext := ih (written ++ [some (.value column.value)]) rest
        (Nat.lt_of_succ_lt_succ h)
      rw [List.length_append, List.length_singleton] at hnext
      rw [getHintFrom, if_pos hkey, setPart_append, hintParts_cons_of_pos columns hkey,
        List.map_cons]
      simp only [hnext]
      simp
    · rw [List.countP_cons_of_neg hkey] at h ⊢
      rw [getHintFrom, if_neg hkey, ih written room h, hintParts_cons_of_neg columns hkey]

/-- **What `getHint` writes**: a part for each distribution key, in the
order of the columns, and the null part; what there is behind it in the
array stays. -/
theorem getHint_eq (columns : List ColumnValue) (hint : Hint)
    (h : getNoDistributionKeyIndexes columns < hint.length) :
    getHint columns hint
      = some ((hintParts columns).map some ++ [some .terminator]
          ++ hint.drop (getNoDistributionKeyIndexes columns + 1)) := by
  rw [getNoDistributionKeyIndexes_eq] at h ⊢
  exact getHintFrom_append columns [] hint h

/-- **The hint fits the array its callers allocate.** -/
theorem getHint_newHint (columns : List ColumnValue) :
    getHint columns (newHint (getNoDistributionKeyIndexes columns + 1))
      = some ((hintParts columns).map some ++ [some .terminator]) := by
  rw [getHint_eq columns _ (by simp [newHint])]
  simp [newHint]

/-- The columns whose distribution flag is present and true. -/
def distributionKeys (columns : List ColumnValue) : List ColumnValue :=
  columns.filter isDistributionKey

theorem length_distributionKeys (columns : List ColumnValue) :
    (distributionKeys columns).length = getNoDistributionKeyIndexes columns := by
  rw [getNoDistributionKeyIndexes_eq, distributionKeys, List.countP_eq_length_filter]

theorem hintParts_eq (columns : List ColumnValue) :
    hintParts columns
      = (distributionKeys columns).map (fun column => KeyPart.value column.value) := rfl

/-- **Slot by slot**: of the array for `n` distribution keys, the first `n`
slots hold their values and the last the null part. In a longer array, the
slots behind these stay as they were. -/
theorem getHint_slots (columns : List ColumnValue) :
    ∃ filled, filled.length = getNoDistributionKeyIndexes columns + 1
      ∧ getHint columns (newHint (getNoDistributionKeyIndexes columns + 1)) = some filled
      ∧ (∀ (i : Nat) (column : ColumnValue), (distributionKeys columns)[i]? = some column →
          filled[i]? = some (some (.value column.value)))
      ∧ filled[getNoDistributionKeyIndexes columns]? = some (some .terminator)
      ∧ ∀ rest, getHint columns (newHint (getNoDistributionKeyIndexes columns + 1) ++ rest)
          = some (filled ++ rest) := by
  have hlen : ((hintParts columns).map some).length = getNoDistributionKeyIndexes columns := by
    rw [List.length_map, hintParts_eq, List.length_map, length_distributionKeys]
  refine ⟨(hintParts columns).map some ++ [some .terminator], ?_, getHint_newHint columns,
    fun i column hcolumn => ?_, ?_, fun rest => ?_⟩
  · rw [List.length_append, hlen, List.length_singleton]
  · have hi : i < (distributionKeys columns).length := (List.getElem?_eq_some_iff.mp hcolumn).1
    rw [List.getElem?_append_left (by rwa [hlen, ← length_distributionKeys]),
      List.getElem?_map, hintParts_eq, List.getElem?_map, hcolumn]
    rfl
  · rw [List.getElem?_append_right (le_of_eq hlen), hlen, Nat.sub_self]
    rfl
  · have hroom : getNoDistributionKeyIndexes columns
        < (newHint (getNoDistributionKeyIndexes columns + 1) ++ rest).length := by
      rw [newHint, List.length_append, List.length_replicate]
      omega
    rw [getHint_eq columns _ hroom]
    simp [newHint]

/-! ## The buckets -/

/-- `ExecutorTaskMap`: the buckets, by the number of the executor. -/
abbrev ExecutorTaskMap := List (Nat × List FrameMessagesTuple)

/-- `NDBMessageProcessor::addToExecutorList`. -/
def addToExecutorList :
    ExecutorTaskMap → Nat → FrameMessagesTuple → ExecutorTaskMap
  | [], executorNo, messagesTuple => [(executorNo, [messagesTuple])]
  | (key, bucket) :: executorMap, executorNo, messagesTuple =>
    if key = executorNo then (key, bucket ++ [messagesTuple]) :: executorMap
    else (key, bucket) :: addToExecutorList executorMap executorNo messagesTuple

/-- **`NDBMessageProcessor::processForExecutor`**. The numbers `rand`
returns are those of `random`, one for each tuple. -/
def processForExecutor (messagesList : List FrameMessagesTuple) (noOfExecutors : Nat)
    (random : Nat → Nat) : ExecutorTaskMap :=
  messagesList.zipIdx.foldl
    (fun executorMap p =>
      addToExecutorList executorMap (random p.2 % noOfExecutors) p.1) []

/-- The tuples in the bucket of an executor. -/
def bucketOf (executorMap : ExecutorTaskMap) (executorNo : Nat) :
    List FrameMessagesTuple :=
  (executorMap.lookup executorNo).getD []

@[simp] theorem bucketOf_nil (executorNo : Nat) : bucketOf [] executorNo = [] := rfl

theorem bucketOf_cons (key executorNo : Nat) (bucket : List FrameMessagesTuple)
    (executorMap : ExecutorTaskMap) :
    bucketOf ((key, bucket) :: executorMap) executorNo
      = if executorNo = key then bucket else bucketOf executorMap executorNo := by
  unfold bucketOf
  rw [List.lookup_cons]
  by_cases h : executorNo = key
  · rw [if_pos h, beq_iff_eq.mpr h]
    rfl
  · rw [if_neg h, beq_eq_false_iff_ne.mpr h]

/-- A tuple is added to one bucket, at its end. -/
theorem bucketOf_addToExecutorList (executorMap : ExecutorTaskMap) (n executorNo : Nat)
    (messagesTuple : FrameMessagesTuple) :
    bucketOf (addToExecutorList executorMap n messagesTuple) executorNo
      = bucketOf executorMap executorNo
        ++ if executorNo = n then [messagesTuple] else [] := by
  induction executorMap with
  | nil =>
    rw [addToExecutorList, bucketOf_cons, bucketOf_nil, List.nil_append]
  | cons p executorMap ih =>
    obtain ⟨key, bucket⟩ := p
    unfold addToExecutorList
    by_cases hk : key = n
    · subst hk
      rw [if_pos rfl, bucketOf_cons, bucketOf_cons]
      split <;> simp
    · rw [if_neg hk, bucketOf_cons, bucketOf_cons, ih]
      by_cases h : executorNo = key
      · rw [if_pos h, if_pos h, if_neg (fun e => hk (h.symm.trans e)), List.append_nil]
      · rw [if_neg h, if_neg h]

theorem keys_addToExecutorList_nodup {executorMap : ExecutorTaskMap} (n : Nat)
    (messagesTuple : FrameMessagesTuple) (h : (executorMap.map Prod.fst).Nodup) :
    ((addToExecutorList executorMap n messagesTuple).map Prod.fst).Nodup := by
  -- the keys stay as they are, or the new one is added at the end
  have hkeys : (addToExecutorList executorMap n messagesTuple).map Prod.fst
      = if n ∈ executorMap.map Prod.fst then executorMap.map Prod.fst
        else executorMap.map Prod.fst ++ [n] := by
    clear h
    induction executorMap with
    | nil => rfl
    | cons p executorMap ih =>
      obtain ⟨key, bucket⟩ := p
      unfold addToExecutorList
      by_cases hk : key = n
      · subst hk
        simp
      · rw [if_neg hk, List.map_cons, ih]
        have hk' : ¬ n = key := fun e => hk e.symm
        simp only [List.map_cons, List.mem_cons, hk', false_or]
        split <;> rfl
  rw [hkeys]
  split
  · exact h
  · next hn => exact List.nodup_append'.mpr ⟨h, List.nodup_singleton n, by simpa using hn⟩

theorem keys_addToExecutorList {executorMap : ExecutorTaskMap} {n key : Nat}
    {messagesTuple : FrameMessagesTuple}
    (h : key ∈ (addToExecutorList executorMap n messagesTuple).map Prod.fst) :
    key = n ∨ key ∈ executorMap.map Prod.fst := by
  induction executorMap with
  | nil => exact Or.inl (List.mem_singleton.mp h)
  | cons p executorMap ih =>
    obtain ⟨key', bucket⟩ := p
    unfold addToExecutorList at h
    split at h
    · exact Or.inr h
    · rcases List.mem_cons.mp h with rfl | h
      · exact Or.inr List.mem_cons_self
      · exact (ih h).imp_right (List.mem_cons_of_mem key')

theorem flatMap_addToExecutorList (executorMap : ExecutorTaskMap) (n : Nat)
    (messagesTuple : FrameMessagesTuple) :
    ((addToExecutorList executorMap n messagesTuple).flatMap Prod.snd).Perm
      (executorMap.flatMap Prod.snd ++ [messagesTuple]) := by
  induction executorMap with
  | nil => rfl
  | cons p executorMap ih =>
    obtain ⟨key, bucket⟩ := p
    unfold addToExecutorList
    split
    · simp only [List.flatMap_cons, List.append_assoc]
      exact List.Perm.append_left bucket List.perm_append_comm
    · simp only [List.flatMap_cons, List.append_assoc]
      exact List.Perm.append_left bucket ih

section Process

variable (messagesList : List FrameMessagesTuple) (noOfExecutors : Nat) (random : Nat → Nat)

/-- The loop of `processForExecutor` over numbered tuples, and what it
preserves. -/
theorem processForExecutor_induct {I : List (FrameMessagesTuple × Nat) → ExecutorTaskMap → Prop}
    (hnil : I [] [])
    (hadd : ∀ done p executorMap, I done executorMap →
      I (done ++ [p]) (addToExecutorList executorMap (random p.2 % noOfExecutors) p.1)) :
    I messagesList.zipIdx (processForExecutor messagesList noOfExecutors random) := by
  have hloop : ∀ (ps done : List (FrameMessagesTuple × Nat)) (executorMap : ExecutorTaskMap),
      I done executorMap → I (done ++ ps) (ps.foldl (fun executorMap p =>
        addToExecutorList executorMap (random p.2 % noOfExecutors) p.1) executorMap) := by
    intro ps
    induction ps with
    | nil => exact fun done executorMap h => (List.append_nil done).symm ▸ h
    | cons p ps ih =>
      intro done executorMap h
      rw [List.foldl_cons, List.append_cons]
      exact ih _ _ (hadd done p executorMap h)
  exact hloop messagesList.zipIdx [] [] hnil

/-- **A bucket holds the tuples its executor was chosen for**, in the order
of the batch. -/
theorem bucketOf_processForExecutor (executorNo : Nat) :
    bucketOf (processForExecutor messagesList noOfExecutors random) executorNo
      = (messagesList.zipIdx.filter
          (fun p => random p.2 % noOfExecutors = executorNo)).map Prod.fst := by
  refine processForExecutor_induct messagesList noOfExecutors random
    (I := fun done executorMap => bucketOf executorMap executorNo
      = (done.filter (fun p => random p.2 % noOfExecutors = executorNo)).map Prod.fst)
    rfl (fun done p executorMap h => ?_)
  rw [bucketOf_addToExecutorList, h, List.filter_append, List.map_append]
  refine congrArg _ ?_
  by_cases hp : random p.2 % noOfExecutors = executorNo
  · rw [if_pos hp.symm, List.filter_cons_of_pos (by simpa using hp)]
    rfl
  · rw [if_neg (fun e => hp e.symm), List.filter_cons_of_neg (by simpa using hp)]
    rfl

/-- There is one bucket for an executor. -/
theorem keys_processForExecutor_nodup :
    ((processForExecutor messagesList noOfExecutors random).map Prod.fst).Nodup :=
  processForExecutor_induct messagesList noOfExecutors random
    (I := fun _ executorMap => (executorMap.map Prod.fst).Nodup)
    List.nodup_nil (fun _ p _ h => keys_addToExecutorList_nodup _ p.1 h)

/-- Buckets are for executors there are. -/
theorem keys_processForExecutor_lt (h : 0 < noOfExecutors) :
    ∀ key ∈ (processForExecutor messagesList noOfExecutors random).map Prod.fst,
      key < noOfExecutors := by
  refine processForExecutor_induct messagesList noOfExecutors random
    (I := fun _ executorMap => ∀ key ∈ executorMap.map Prod.fst, key < noOfExecutors)
    (fun _ h => absurd h List.not_mem_nil) (fun done p executorMap hI key hkey => ?_)
  rcases keys_addToExecutorList hkey with rfl | hkey
  · exact Nat.mod_lt _ h
  · exact hI key hkey

/-- **The buckets hold the tuples of the batch, each once.** -/
theorem flatMap_processForExecutor :
    ((processForExecutor messagesList noOfExecutors random).flatMap Prod.snd).Perm
      messagesList := by
  have h := processForExecutor_induct messagesList noOfExecutors random
    (I := fun done executorMap =>
      (executorMap.flatMap Prod.snd).Perm (done.map Prod.fst))
    (List.Perm.refl [])
    (fun done p executorMap hI => by
      rw [List.map_append]
      exact (flatMap_addToExecutorList _ _ _).trans (hI.append_right _))
  rwa [List.zipIdx_map_fst] at h

end Process

end NDBMessageProcessor

end VoloDB
