import VoloDB.Frame

/-!
# Sending a request

`Executor::execute` of the client puts a list of operations into a frame
and sends it. Run atomically, the frame takes the first of the identifiers
and the operations are one transaction; otherwise every operation takes
its own and is a transaction by itself.

What is proved here is the agreement of the two ends of the wire: the
table of types the client frames by, the branches the server decodes by,
the place of the identifier, and the guard on the arguments. They agree
except in two places. The server has no branch for the two database
operations, which the client frames like any other; and the guard lets an
empty request pass, whose first identifier is then read all the same.
-/

namespace VoloDB

open FrameUtils FrameDecoder

/-- What calling `Executor::execute` comes to. -/
inductive Sent where
  /-- The bytes of a frame were sent. -/
  | bytes (b : Bytes)
  /-- An exception was thrown, and nothing sent. -/
  | thrown (what : Bytes)
  /-- An element of the identifier list was read that is not there. -/
  | outOfRange
deriving DecidableEq

namespace ClientExecutor

variable (P : Protobuf)

/-- **The guard of `Executor::execute`**: the exception it throws on
identifiers that do not fit, or `none` where it lets them pass. -/
def guardError (operations : List Message) (uuids : List Bytes) (runAtomic : Bool) :
    Option Bytes :=
  if !runAtomic && operations.length != uuids.length then
    some (ascii "UUID must be provided for every operation for non atomic execution")
  else if runAtomic && uuids.length < 1 then
    some (ascii "At least one UUID must be provided for atomic operation")
  else none

/-- The loop of `Executor::execute`: add the operations from index `i` on
to the frame. -/
def addFrames (uuids : List Bytes) (runAtomic : Bool) :
    Nat → List Message → FrameBuilder → Sent ⊕ FrameBuilder
  | _, [], b => .inr b
  | i, operation :: operations, b =>
    match if runAtomic then some [] else uuids[i]? with
    | none => .inl .outOfRange
    | some uuid =>
      match b.addFrame P operation uuid with
      | .error what => .inl (.thrown what)
      | .ok b => addFrames uuids runAtomic (i + 1) operations b

/-- **`Executor::execute`** of a list of operations. -/
def execute (operations : List Message) (uuids : List Bytes) (runAtomic : Bool) : Sent :=
  match guardError operations uuids runAtomic with
  | some what => .thrown what
  | none =>
    match uuids[0]? with
    | none => .outOfRange -- `uuids[0]` of an empty vector
    | some uuid =>
      match addFrames P uuids runAtomic 0 operations (FrameBuilder.new runAtomic uuid) with
      | .inl sent => sent
      | .inr b => .bytes (b.getBytes P)

/-- **`Executor::execute`** of one operation, the overload without guard. -/
def executeOne (operation : Message) (uuid : Bytes) : Sent :=
  match (FrameBuilder.new false []).addFrame P operation uuid with
  | .error what => .thrown what
  | .ok b => .bytes (b.getBytes P)

/-- It sends what the list of this one operation is sent as. -/
theorem executeOne_eq (operation : Message) (uuid : Bytes) :
    executeOne P operation uuid = execute P [operation] [uuid] false := by
  have hguard : guardError [operation] [uuid] false = none := by
    unfold guardError
    simp
  have hnew : FrameBuilder.new false uuid = FrameBuilder.new false [] := rfl
  unfold executeOne execute
  rw [hguard]
  simp only [addFrames, Bool.false_eq_true, if_false, List.getElem?_cons_zero, hnew]
  cases (FrameBuilder.new false []).addFrame P operation uuid <;> rfl

/-! ## One operation across the wire -/

/-- The item `addFrame` makes of a message. -/
def itemOf (message : Message) (identifier : Option Bytes) : FrameItem :=
  ⟨getFrameType message, message.serialize P, identifier⟩

/-- The types a frame can be built around. -/
def Accepted (message : Message) : Prop := getFrameType message ≠ .none

instance (message : Message) : Decidable (Accepted message) :=
  inferInstanceAs (Decidable (_ ≠ _))

/-- The two operations the server has no branch for. -/
def isDatabaseOperation (message : Message) : Bool :=
  getFrameType message = .createDatabase || getFrameType message = .dropDatabase

/-- **What the server decodes an item of the client to**: the message it
was made of, unless that is an operation on a database. -/
theorem decodeItem_itemOf (message : Message) (identifier : Option Bytes)
    (h : Accepted message) :
    decodeItem P (itemOf P message identifier)
      = if isDatabaseOperation message then none else some message := by
  cases message with
  | other typeName => exact absurd rfl h
  | _ => simp [decodeItem, itemOf, isDatabaseOperation, getFrameType, Message.serialize]

theorem addFrame_of_accepted (b : FrameBuilder) (message : Message) (uuid : Bytes)
    (h : Accepted message) :
    b.addFrame P message uuid
      = .ok ⟨⟨b.frame.identifier, b.frame.item
          ++ [itemOf P message (if b.frame.identifier.isSome then none else some uuid)]⟩⟩ := by
  unfold FrameBuilder.addFrame
  rw [if_neg h]
  rfl

theorem addFrame_of_not_accepted (b : FrameBuilder) (message : Message) (uuid : Bytes)
    (h : ¬ Accepted message) :
    b.addFrame P message uuid
      = .error (message.getTypeName ++ ascii " message is not supported to be framed") := by
  unfold FrameBuilder.addFrame
  rw [if_pos (not_not.mp h)]

/-! ## The loop over the operations -/

/-- Running atomically, every accepted operation becomes an item without
identifier. -/
theorem addFrames_atomic (uuids : List Bytes) (i : Nat) (operations : List Message)
    (id : Bytes) (items : List FrameItem) (h : ∀ m ∈ operations, Accepted m) :
    addFrames P uuids true i operations ⟨⟨some id, items⟩⟩
      = .inr ⟨⟨some id, items ++ operations.map (fun m => itemOf P m none)⟩⟩ := by
  induction operations generalizing i items with
  | nil => simp [addFrames]
  | cons m operations ih =>
    rw [addFrames]
    simp only [if_true, addFrame_of_accepted P _ m [] (h m List.mem_cons_self)]
    rw [ih (i + 1) _ (fun x hx => h x (List.mem_cons_of_mem m hx))]
    simp

/-- Otherwise every accepted operation becomes an item with the
identifier of its place. -/
theorem addFrames_plain (uuids : List Bytes) (i : Nat) (operations : List Message)
    (items : List FrameItem) (h : ∀ m ∈ operations, Accepted m)
    (hlen : i + operations.length = uuids.length) :
    addFrames P uuids false i operations ⟨⟨none, items⟩⟩
      = .inr ⟨⟨none, items ++ List.zipWith (fun m u => itemOf P m (some u)) operations
          (uuids.drop i)⟩⟩ := by
  induction operations generalizing i items with
  | nil => simp [addFrames]
  | cons m operations ih =>
    rw [List.length_cons] at hlen
    have hi : i < uuids.length := by omega
    rw [addFrames]
    simp only [Bool.false_eq_true, if_false, List.getElem?_eq_getElem hi,
      addFrame_of_accepted P _ m _ (h m List.mem_cons_self)]
    rw [ih (i + 1) _ (fun x hx => h x (List.mem_cons_of_mem m hx)) (by omega),
      List.drop_eq_getElem_cons hi, List.zipWith_cons_cons]
    simp

/-- An operation that is not accepted ends the loop with an exception. -/
theorem addFrames_not_accepted (uuids : List Bytes) (runAtomic : Bool) (i : Nat)
    (operations : List Message) (b : FrameBuilder)
    (h : ∃ m ∈ operations, ¬ Accepted m)
    (hlen : runAtomic = true ∨ i + operations.length = uuids.length) :
    ∃ what, addFrames P uuids runAtomic i operations b = .inl (.thrown what) := by
  induction operations generalizing i b with
  | nil =>
    obtain ⟨m, hm, -⟩ := h
    exact absurd hm List.not_mem_nil
  | cons m operations ih =>
    obtain ⟨uuid, huuid⟩ :
        ∃ uuid, (if runAtomic then some [] else uuids[i]?) = some uuid := by
      rcases hlen with rfl | hlen
      · exact ⟨[], rfl⟩
      · rw [List.length_cons] at hlen
        cases runAtomic with
        | true => exact ⟨[], rfl⟩
        | false => exact ⟨_, List.getElem?_eq_getElem (show i < uuids.length by omega)⟩
    rw [addFrames, huuid]
    by_cases hm : Accepted m
    · have hrest : ∃ x ∈ operations, ¬ Accepted x := by
        obtain ⟨x, hx, hnx⟩ := h
        rcases List.mem_cons.mp hx with rfl | hx
        · exact absurd hm hnx
        · exact ⟨x, hx, hnx⟩
      simp only [addFrame_of_accepted P b m uuid hm]
      refine ih (i + 1) _ hrest (hlen.imp_right (fun hl => ?_))
      rw [List.length_cons] at hl
      omega
    · simp only [addFrame_of_not_accepted P b m uuid hm]
      exact ⟨_, rfl⟩

/-! ## The whole request -/

/-- **The tuples a request is meant to arrive as.** -/
def expectedTuples (operations : List Message) (uuids : List Bytes) (runAtomic : Bool)
    (identifier : Bytes) : List FrameMessagesTuple :=
  if runAtomic then [⟨uuids.headD [], identifier, operations⟩]
  else List.zipWith (fun m u => ⟨u, identifier, [m]⟩) operations uuids

/-- **A request arrives as it was meant**: where every operation is of an
accepted type, as the expected tuples; where one is not, not at all, with
an exception at the sender. -/
def Arrives (operations : List Message) (uuids : List Bytes) (runAtomic : Bool)
    (identifier : Bytes) : Prop :=
  if ∀ m ∈ operations, Accepted m then
    ∃ b, execute P operations uuids runAtomic = .bytes b
      ∧ decode P b (some identifier)
        = expectedTuples operations uuids runAtomic identifier
  else ∃ what, execute P operations uuids runAtomic = .thrown what

/-- The items an atomic request decodes to are its operations, save those
on databases. -/
theorem filterMap_decodeItem_itemOf (operations : List Message)
    (h : ∀ m ∈ operations, Accepted m) :
    (operations.map (fun m => itemOf P m none)).filterMap (decodeItem P)
      = operations.filter (fun m => !isDatabaseOperation m) := by
  induction operations with
  | nil => rfl
  | cons m operations ih =>
    have hrest := ih (fun x hx => h x (List.mem_cons_of_mem m hx))
    have hm := decodeItem_itemOf P m none (h m List.mem_cons_self)
    rw [List.map_cons]
    cases hd : isDatabaseOperation m with
    | true =>
      rw [hd] at hm
      rw [List.filterMap_cons_none hm, hrest, List.filter_cons_of_neg (by simp [hd])]
    | false =>
      rw [hd] at hm
      rw [List.filterMap_cons_some hm, hrest, List.filter_cons_of_pos (by simp [hd])]

theorem itemTuple_itemOf (message : Message) (uuid identifier : Bytes)
    (h : Accepted message) :
    itemTuple P (some identifier) (itemOf P message (some uuid))
      = if isDatabaseOperation message then newTuple (some identifier)
        else ⟨uuid, identifier, [message]⟩ := by
  have hm := decodeItem_itemOf P message (some uuid) h
  unfold itemTuple
  rw [hm]
  by_cases hd : isDatabaseOperation message = true
  · simp [hd]
  · simp [hd, itemOf]

/-- An atomic request that passes the guard is sent as one atomic frame. -/
theorem execute_atomic (operations : List Message) (uuid : Bytes) (uuids : List Bytes)
    (h : ∀ m ∈ operations, Accepted m) :
    execute P operations (uuid :: uuids) true
      = .bytes (P.frame.serialize
          ⟨some uuid, operations.map (fun m => itemOf P m none)⟩) := by
  have hloop := addFrames_atomic P (uuid :: uuids) 0 operations uuid [] h
  rw [List.nil_append] at hloop
  unfold execute guardError
  simp [FrameBuilder.new, hloop, FrameBuilder.getBytes]

/-- A request of single operations that passes the guard and is not empty
is sent as one frame without identifier. -/
theorem execute_plain (operations : List Message) (uuid : Bytes) (uuids : List Bytes)
    (h : ∀ m ∈ operations, Accepted m)
    (hlen : operations.length = (uuid :: uuids).length) :
    execute P operations (uuid :: uuids) false
      = .bytes (P.frame.serialize
          ⟨none, List.zipWith (fun m u => itemOf P m (some u)) operations
            (uuid :: uuids)⟩) := by
  have hloop := addFrames_plain P (uuid :: uuids) 0 operations [] h (by omega)
  rw [List.nil_append, List.drop_zero] at hloop
  unfold execute guardError
  simp [FrameBuilder.new, hloop, FrameBuilder.getBytes, hlen]

/-- The tuples of single operations are the expected ones exactly where
none is on a database. -/
theorem map_itemTuple_eq_iff (operations : List Message) (uuids : List Bytes)
    (identifier : Bytes) (h : ∀ m ∈ operations, Accepted m)
    (hlen : operations.length = uuids.length) :
    (List.zipWith (fun m u => itemOf P m (some u)) operations uuids).map
        (itemTuple P (some identifier))
      = List.zipWith (fun m u => (⟨u, identifier, [m]⟩ : FrameMessagesTuple))
          operations uuids
      ↔ ∀ m ∈ operations, isDatabaseOperation m = false := by
  induction operations generalizing uuids with
  | nil => simp
  | cons m operations ih =>
    cases uuids with
    | nil => exact absurd hlen (by simp)
    | cons uuid uuids =>
      rw [List.zipWith_cons_cons, List.zipWith_cons_cons, List.map_cons,
        itemTuple_itemOf P m uuid identifier (h m List.mem_cons_self),
        List.cons.injEq, List.forall_mem_cons,
        ih uuids (fun x hx => h x (List.mem_cons_of_mem m hx)) (by simpa using hlen)]
      refine and_congr_left (fun _ => ?_)
      cases hd : isDatabaseOperation m <;> simp [newTuple]

/-- What passes the guard and is not atomic has as many identifiers as
operations. -/
theorem length_eq_of_guardError {operations : List Message} {uuids : List Bytes}
    (hguard : guardError operations uuids false = none) : operations.length = uuids.length := by
  unfold guardError at hguard
  by_contra hne
  simp [hne] at hguard

/-- Without an identifier the first is read out of range, and nothing
arrives. -/
theorem not_arrives_nil {operations : List Message} {runAtomic : Bool} (identifier : Bytes)
    (hguard : guardError operations [] runAtomic = none) :
    ¬ Arrives P operations [] runAtomic identifier := by
  have hrange : execute P operations [] runAtomic = .outOfRange := by
    rw [execute, hguard]
    rfl
  unfold Arrives
  split
  · rintro ⟨b, hb, -⟩
    exact absurd (hrange.symm.trans hb) (by simp)
  · rintro ⟨what, hw⟩
    exact absurd (hrange.symm.trans hw) (by simp)

/-- An operation that is not accepted is told to the caller. -/
theorem arrives_of_not_accepted {operations : List Message} {uuid : Bytes}
    {uuids : List Bytes} {runAtomic : Bool} (identifier : Bytes)
    (hguard : guardError operations (uuid :: uuids) runAtomic = none)
    (h : ∃ m ∈ operations, ¬ Accepted m) :
    Arrives P operations (uuid :: uuids) runAtomic identifier := by
  have hlen : runAtomic = true ∨ 0 + operations.length = (uuid :: uuids).length := by
    cases runAtomic with
    | true => exact Or.inl rfl
    | false => exact Or.inr ((Nat.zero_add _).trans (length_eq_of_guardError hguard))
  obtain ⟨what, hw⟩ := addFrames_not_accepted P (uuid :: uuids) runAtomic 0 operations
    (FrameBuilder.new runAtomic uuid) h hlen
  unfold Arrives
  rw [if_neg (fun hacc => h.elim (fun m hm => hm.2 (hacc m hm.1)))]
  refine ⟨what, ?_⟩
  rw [execute, hguard]
  simp only [List.getElem?_cons_zero, hw]

/-- An atomic request loses its operations on databases. -/
theorem arrives_atomic_iff {operations : List Message} (uuid : Bytes) (uuids : List Bytes)
    (identifier : Bytes) (hacc : ∀ m ∈ operations, Accepted m) :
    Arrives P operations (uuid :: uuids) true identifier
      ↔ ∀ m ∈ operations, isDatabaseOperation m = false := by
  unfold Arrives
  rw [if_pos hacc]
  simp only [execute_atomic P operations uuid uuids hacc, Sent.bytes.injEq,
    exists_eq_left', decode_serialize, decodeFrame_atomic,
    filterMap_decodeItem_itemOf P operations hacc]
  simp [expectedTuples]

/-- A request of single operations loses those on databases. -/
theorem arrives_plain_iff {operations : List Message} {uuid : Bytes} {uuids : List Bytes}
    (identifier : Bytes) (hacc : ∀ m ∈ operations, Accepted m)
    (hlen : operations.length = (uuid :: uuids).length) :
    Arrives P operations (uuid :: uuids) false identifier
      ↔ ∀ m ∈ operations, isDatabaseOperation m = false := by
  unfold Arrives
  rw [if_pos hacc]
  simp only [execute_plain P operations uuid uuids hacc hlen, Sent.bytes.injEq,
    exists_eq_left', decode_serialize, decodeFrame_plain, expectedTuples,
    Bool.false_eq_true, if_false]
  exact map_itemTuple_eq_iff P operations (uuid :: uuids) identifier hacc hlen

/-- **A request that passes the guard arrives as it was meant exactly
where it has an identifier and, if it is sent at all, no operation on a
database.** -/
theorem arrives_iff (operations : List Message) (uuids : List Bytes) (runAtomic : Bool)
    (identifier : Bytes) (hguard : guardError operations uuids runAtomic = none) :
    Arrives P operations uuids runAtomic identifier
      ↔ uuids ≠ [] ∧ ((∃ m ∈ operations, ¬ Accepted m)
          ∨ ∀ m ∈ operations, isDatabaseOperation m = false) := by
  cases uuids with
  | nil => exact iff_of_false (not_arrives_nil P identifier hguard) (fun h => h.1 rfl)
  | cons uuid uuids =>
    rw [and_iff_right (List.cons_ne_nil uuid uuids)]
    by_cases hacc : ∀ m ∈ operations, Accepted m
    · have hnone : ¬ ∃ m ∈ operations, ¬ Accepted m := fun ⟨m, hm, hn⟩ => hn (hacc m hm)
      rw [or_iff_right hnone]
      cases runAtomic with
      | true => exact arrives_atomic_iff P uuid uuids identifier hacc
      | false => exact arrives_plain_iff P identifier hacc (length_eq_of_guardError hguard)
    · have hsome : ∃ m ∈ operations, ¬ Accepted m := by
        simpa [not_forall] using hacc
      exact iff_of_true (arrives_of_not_accepted P identifier hguard hsome) (Or.inl hsome)

/-- A row is set and read, and its store is dropped. -/
def threeOperations : List Message :=
  [.set ⟨[⟨ascii "t"⟩], [], []⟩, .get ⟨[⟨ascii "t"⟩], [], []⟩, .dropStore ⟨⟨ascii "t"⟩⟩]

/-- A request of three operations arrives, each in a tuple of its own and
with its identifier. -/
theorem arrives_iff_three :
    Arrives wireFormat threeOperations [ascii "x", ascii "y", ascii "z"] false (ascii "c")
      ∧ expectedTuples threeOperations [ascii "x", ascii "y", ascii "z"] false (ascii "c")
        = [⟨ascii "x", ascii "c", [.set ⟨[⟨ascii "t"⟩], [], []⟩]⟩,
          ⟨ascii "y", ascii "c", [.get ⟨[⟨ascii "t"⟩], [], []⟩]⟩,
          ⟨ascii "z", ascii "c", [.dropStore ⟨⟨ascii "t"⟩⟩]⟩] :=
  ⟨(arrives_iff wireFormat threeOperations _ false (ascii "c") (by decide)).mpr
    ⟨List.cons_ne_nil _ _, Or.inr (by decide)⟩, rfl⟩

/-- **Two requests that pass the guard and do not arrive**: an empty one,
whose first identifier is read out of range, and one that creates a
database, whose tuple comes out empty. -/
theorem not_arrives_empty_or_createDatabase :
    (guardError [] [] false = none
      ∧ ¬ Arrives wireFormat [] [] false (ascii "c"))
    ∧ guardError [.createDatabase ⟨ascii "d"⟩] [ascii "x"] false = none
      ∧ ¬ Arrives wireFormat [.createDatabase ⟨ascii "d"⟩] [ascii "x"] false
          (ascii "c") := by
  refine ⟨⟨by decide, ?_⟩, by decide, ?_⟩
  · rintro ⟨b, hb, -⟩
    have hout : execute wireFormat [] [] false = .outOfRange := by decide
    rw [hout] at hb
    exact Sent.noConfusion hb
  · rintro ⟨b, hb, hd⟩
    rw [execute_plain wireFormat _ _ _ (by decide) rfl, Sent.bytes.injEq] at hb
    subst hb
    revert hd
    decide

end ClientExecutor

end VoloDB
