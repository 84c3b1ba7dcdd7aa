import Mathlib.Algebra.Ring.Nat
import Mathlib.Data.List.TakeWhile

/-!
# The wire format of tagged fields

A message on the wire is a sequence of **fields**, each a number and a
payload: a base-128 number (wire type 0) or a string of bytes preceded by
its length (wire type 2). Eight-byte and four-byte payloads (wire types 1
and 5) are read past; the other wire types are refused.

What a field means is not known at this level. A message type reads the
payloads of the numbers it knows (`bytesOf`, `varintsOf`) and ignores the
others, which is what lets the last occurrence of an optional field win
and the occurrences of a repeated one accumulate.

A `Coder` is a pair of a writer and a reader in which reading undoes
writing. `Coder.ofFields` builds one from the two translations between a
type and its fields, and is the only way a message type has to meet the
bytes.
-/

/-- A byte string: what a C++ `std::string` or a message part holds. -/
abbrev Bytes := List UInt8

/-- The bytes of a text, one per character. -/
def ascii (s : String) : Bytes := s.toList.map (fun c => UInt8.ofNat c.toNat)

/-- **The C string inside a byte string**: everything before the first
NUL, which is all a callee sees that is handed a `const char*`. -/
def cStr (b : Bytes) : Bytes := b.takeWhile (fun x => x ≠ 0)

namespace Wire

/-! ## Base-128 numbers -/

/-- The base-128 digits of `n`, lowest first, at most `fuel + 1` of
them. -/
def encodeVarintAux : Nat → Nat → Bytes
  | 0, n => [UInt8.ofNat n]
  | fuel + 1, n =>
    if n < 128 then [UInt8.ofNat n]
    else UInt8.ofNat (n % 128 + 128) :: encodeVarintAux fuel (n / 128)

/-- **A number in base 128**: seven bits to a byte, the high bit set on
every byte but the last. -/
def encodeVarint (n : Nat) : Bytes := encodeVarintAux n n

/-- The number at the front of a byte string, and what follows it. -/
def decodeVarint : Bytes → Option (Nat × Bytes)
  | [] => none
  | b :: rest =>
    if b.toNat < 128 then some (b.toNat, rest)
    else (decodeVarint rest).map (fun p => (b.toNat - 128 + 128 * p.1, p.2))

theorem toNat_ofNat_of_lt {n : Nat} (h : n < 256) : (UInt8.ofNat n).toNat = n := by
  rw [UInt8.toNat_ofNat']
  exact Nat.mod_eq_of_lt h

theorem decodeVarint_encodeVarintAux (fuel n : Nat) (rest : Bytes)
    (h : n < 128 * 2 ^ fuel) :
    decodeVarint (encodeVarintAux fuel n ++ rest) = some (n, rest) := by
  induction fuel generalizing n with
  | zero =>
    rw [encodeVarintAux, List.singleton_append, decodeVarint,
      toNat_ofNat_of_lt (by omega), if_pos (by omega)]
  | succ fuel ih =>
    rw [encodeVarintAux]
    by_cases hn : n < 128
    · rw [if_pos hn, List.singleton_append, decodeVarint,
        toNat_ofNat_of_lt (by omega), if_pos hn]
    · have hlt : n / 128 < 128 * 2 ^ fuel := by
        rw [Nat.pow_succ] at h
        omega
      rw [if_neg hn, List.cons_append, decodeVarint,
        toNat_ofNat_of_lt (by omega), if_neg (by omega), ih _ hlt]
      simp only [Option.map_some, Option.some.injEq, Prod.mk.injEq, and_true]
      omega

/-- **Reading a number undoes writing it**, whatever follows it. -/
theorem decodeVarint_encodeVarint (n : Nat) (rest : Bytes) :
    decodeVarint (encodeVarint n ++ rest) = some (n, rest) := by
  refine decodeVarint_encodeVarintAux n n rest ?_
  have := Nat.lt_two_pow_self (n := n)
  omega

/-- A number takes at least one byte. -/
theorem encodeVarint_ne_nil (n : Nat) : encodeVarint n ≠ [] := by
  unfold encodeVarint
  cases n with
  | zero => simp [encodeVarintAux]
  | succ n =>
    rw [encodeVarintAux]
    split <;> simp

/-! ## Fields -/

/-- What a field carries. -/
inductive Payload where
  /-- A base-128 number. -/
  | varint (n : Nat)
  /-- A byte string preceded by its length. -/
  | bytes (b : Bytes)
deriving DecidableEq, Repr

/-- A numbered payload. -/
structure Field where
  /-- The field number; zero is no field number. -/
  number : Nat
  /-- What the field carries. -/
  payload : Payload
deriving DecidableEq, Repr

/-- The bytes of a payload. -/
def encodePayload : Payload → Bytes
  | .varint n => encodeVarint n
  | .bytes b => encodeVarint b.length ++ b

/-- The wire type of a payload. -/
def wireType : Payload → Nat
  | .varint _ => 0
  | .bytes _ => 2

/-- The bytes of a field: its tag and its payload. -/
def encodeField (f : Field) : Bytes :=
  encodeVarint (f.number * 8 + wireType f.payload) ++ encodePayload f.payload

/-- The bytes of a sequence of fields. -/
def encodeFields (fs : List Field) : Bytes := fs.flatMap encodeField

/-- The first `k` bytes of a byte string that has them, and the rest. -/
def splitExact (k : Nat) (b : Bytes) : Option (Bytes × Bytes) :=
  if k ≤ b.length then some (b.take k, b.drop k) else none

/-- **The field at the front of a byte string**, and what follows it:
`none` where no field can be read, `some (none, _)` where one was read
past. -/
def decodeField (b : Bytes) : Option (Option Field × Bytes) :=
  match decodeVarint b with
  | none => none
  | some (tag, rest) =>
    if tag / 8 = 0 then none
    else if tag % 8 = 0 then
      (decodeVarint rest).map (fun p => (some ⟨tag / 8, .varint p.1⟩, p.2))
    else if tag % 8 = 1 then (splitExact 8 rest).map (fun p => (none, p.2))
    else if tag % 8 = 2 then
      (decodeVarint rest).bind (fun p =>
        (splitExact p.1 p.2).map (fun q => (some ⟨tag / 8, .bytes q.1⟩, q.2)))
    else if tag % 8 = 5 then (splitExact 4 rest).map (fun p => (none, p.2))
    else none

/-- The fields of a byte string, reading at most `fuel` of them. -/
def decodeFieldsAux : Nat → Bytes → Option (List Field)
  | _, [] => some []
  | 0, _ :: _ => none
  | fuel + 1, x :: xs =>
    (decodeField (x :: xs)).bind (fun p =>
      (decodeFieldsAux fuel p.2).map (fun fs => p.1.toList ++ fs))

/-- **The fields of a byte string**, or `none` where it is not a sequence
of fields. Every field takes a byte, so its length is fuel enough. -/
def decodeFields (b : Bytes) : Option (List Field) := decodeFieldsAux b.length b

theorem splitExact_append (a b : Bytes) :
    splitExact a.length (a ++ b) = some (a, b) := by
  rw [splitExact, if_pos (by rw [List.length_append]; omega), List.take_left,
    List.drop_left]

/-- **Reading a field undoes writing it**, whatever follows it. -/
theorem decodeField_encodeField (f : Field) (rest : Bytes) (h : 0 < f.number) :
    decodeField (encodeField f ++ rest) = some (some f, rest) := by
  obtain ⟨number, payload⟩ := f
  simp only at h
  cases payload with
  | varint n =>
    have hdiv : (number * 8 + 0) / 8 = number := by omega
    have hmod : (number * 8 + 0) % 8 = 0 := by omega
    rw [encodeField, List.append_assoc, decodeField, decodeVarint_encodeVarint]
    simp only [wireType, encodePayload, hdiv, hmod, decodeVarint_encodeVarint]
    rw [if_neg (by omega)]
    rfl
  | bytes b =>
    have hdiv : (number * 8 + 2) / 8 = number := by omega
    have hmod : (number * 8 + 2) % 8 = 2 := by omega
    rw [encodeField, List.append_assoc, decodeField, decodeVarint_encodeVarint]
    simp only [wireType, encodePayload, hdiv, hmod, List.append_assoc,
      decodeVarint_encodeVarint, Option.bind_some, splitExact_append]
    rw [if_neg (by omega)]
    rfl

/-- A field takes at least one byte. -/
theorem encodeField_ne_nil (f : Field) : encodeField f ≠ [] :=
  List.append_ne_nil_of_left_ne_nil (encodeVarint_ne_nil _) _

theorem decodeFieldsAux_encodeFields (fs : List Field)
    (hpos : ∀ f ∈ fs, 0 < f.number) (fuel : Nat)
    (hfuel : (encodeFields fs).length ≤ fuel) :
    decodeFieldsAux fuel (encodeFields fs) = some fs := by
  induction fs generalizing fuel with
  | nil => cases fuel <;> rfl
  | cons f fs ih =>
    obtain ⟨x, xs, hx⟩ := List.exists_cons_of_ne_nil (encodeField_ne_nil f)
    have hcons : encodeFields (f :: fs) = encodeField f ++ encodeFields fs := rfl
    have hlen : (encodeFields fs).length < (encodeFields (f :: fs)).length := by
      rw [hcons, List.length_append, hx, List.length_cons]
      omega
    cases fuel with
    | zero => omega
    | succ fuel =>
      have hread := decodeField_encodeField f (encodeFields fs)
        (hpos f List.mem_cons_self)
      rw [hcons]
      rw [hx, List.cons_append] at hread ⊢
      rw [decodeFieldsAux, hread, Option.bind_some,
        ih (fun g hg => hpos g (List.mem_cons_of_mem f hg)) fuel (by omega)]
      rfl

/-- **Reading fields undoes writing them.** -/
theorem decodeFields_encodeFields (fs : List Field)
    (hpos : ∀ f ∈ fs, 0 < f.number) :
    decodeFields (encodeFields fs) = some fs :=
  decodeFieldsAux_encodeFields fs hpos _ (Nat.le_refl _)

/-! ## The payloads of one field number -/

/-- The byte strings the fields of number `k` carry, in order. A field of
that number carrying a number instead is not one of them. -/
def bytesOf (k : Nat) : List Field → List Bytes
  | [] => []
  | ⟨number, .bytes b⟩ :: fs =>
    if number = k then b :: bytesOf k fs else bytesOf k fs
  | ⟨_, .varint _⟩ :: fs => bytesOf k fs

/-- The numbers the fields of number `k` carry, in order. -/
def varintsOf (k : Nat) : List Field → List Nat
  | [] => []
  | ⟨number, .varint n⟩ :: fs =>
    if number = k then n :: varintsOf k fs else varintsOf k fs
  | ⟨_, .bytes _⟩ :: fs => varintsOf k fs

@[simp] theorem bytesOf_nil (k : Nat) : bytesOf k [] = [] := rfl

@[simp] theorem varintsOf_nil (k : Nat) : varintsOf k [] = [] := rfl

@[simp] theorem bytesOf_cons_bytes (k number : Nat) (b : Bytes) (fs : List Field) :
    bytesOf k (⟨number, .bytes b⟩ :: fs)
      = if number = k then b :: bytesOf k fs else bytesOf k fs := rfl

@[simp] theorem bytesOf_cons_varint (k number n : Nat) (fs : List Field) :
    bytesOf k (⟨number, .varint n⟩ :: fs) = bytesOf k fs := rfl

@[simp] theorem varintsOf_cons_varint (k number n : Nat) (fs : List Field) :
    varintsOf k (⟨number, .varint n⟩ :: fs)
      = if number = k then n :: varintsOf k fs else varintsOf k fs := rfl

@[simp] theorem varintsOf_cons_bytes (k number : Nat) (b : Bytes) (fs : List Field) :
    varintsOf k (⟨number, .bytes b⟩ :: fs) = varintsOf k fs := rfl

@[simp] theorem bytesOf_append (k : Nat) (fs gs : List Field) :
    bytesOf k (fs ++ gs) = bytesOf k fs ++ bytesOf k gs := by
  induction fs with
  | nil => rfl
  | cons f fs ih =>
    obtain ⟨number, payload⟩ := f
    cases payload with
    | varint n => rw [List.cons_append, bytesOf_cons_varint, bytesOf_cons_varint, ih]
    | bytes b =>
      rw [List.cons_append, bytesOf_cons_bytes, bytesOf_cons_bytes, ih]
      split <;> rfl

@[simp] theorem varintsOf_append (k : Nat) (fs gs : List Field) :
    varintsOf k (fs ++ gs) = varintsOf k fs ++ varintsOf k gs := by
  induction fs with
  | nil => rfl
  | cons f fs ih =>
    obtain ⟨number, payload⟩ := f
    cases payload with
    | varint n =>
      rw [List.cons_append, varintsOf_cons_varint, varintsOf_cons_varint, ih]
      split <;> rfl
    | bytes b => rw [List.cons_append, varintsOf_cons_bytes, varintsOf_cons_bytes, ih]

/-! ## Writing the three kinds of field -/

/-- A number field present exactly where the value is. -/
def optionalVarint {α : Type} (number : Nat) (write : α → Nat) :
    Option α → List Field
  | none => []
  | some a => [⟨number, .varint (write a)⟩]

/-- A byte string field present exactly where the value is. -/
def optionalBytes (number : Nat) : Option Bytes → List Field
  | none => []
  | some b => [⟨number, .bytes b⟩]

/-- One field per element. -/
def repeated {α : Type} (number : Nat) (write : α → Bytes) (l : List α) :
    List Field :=
  l.map (fun a => ⟨number, .bytes (write a)⟩)

@[simp] theorem bytesOf_repeated {α : Type} (k number : Nat) (write : α → Bytes)
    (l : List α) :
    bytesOf k (repeated number write l) = if number = k then l.map write else [] := by
  induction l with
  | nil => simp [repeated]
  | cons a l ih =>
    rw [repeated, List.map_cons, bytesOf_cons_bytes]
    rw [repeated] at ih
    rw [ih]
    split <;> simp

@[simp] theorem varintsOf_repeated {α : Type} (k number : Nat) (write : α → Bytes)
    (l : List α) : varintsOf k (repeated number write l) = [] := by
  induction l with
  | nil => rfl
  | cons a l ih => exact ih

@[simp] theorem bytesOf_optionalBytes (k number : Nat) (o : Option Bytes) :
    bytesOf k (optionalBytes number o) = if number = k then o.toList else [] := by
  cases o <;> simp [optionalBytes]

@[simp] theorem bytesOf_optionalVarint {α : Type} (k number : Nat)
    (write : α → Nat) (o : Option α) :
    bytesOf k (optionalVarint number write o) = [] := by
  cases o <;> rfl

@[simp] theorem varintsOf_optionalVarint {α : Type} (k number : Nat)
    (write : α → Nat) (o : Option α) :
    varintsOf k (optionalVarint number write o)
      = if number = k then (o.map write).toList else [] := by
  cases o <;> simp [optionalVarint]

@[simp] theorem varintsOf_optionalBytes (k number : Nat) (o : Option Bytes) :
    varintsOf k (optionalBytes number o) = [] := by
  cases o <;> rfl

theorem number_of_mem_repeated {α : Type} {number : Nat} {write : α → Bytes}
    {l : List α} {f : Field} (h : f ∈ repeated number write l) :
    f.number = number := by
  obtain ⟨a, -, rfl⟩ := List.mem_map.mp h
  rfl

theorem number_of_mem_optionalVarint {α : Type} {number : Nat} {write : α → Nat}
    {o : Option α} {f : Field} (h : f ∈ optionalVarint number write o) :
    f.number = number := by
  cases o with
  | none => exact absurd h List.not_mem_nil
  | some a => rw [List.mem_singleton.mp h]

theorem number_of_mem_optionalBytes {number : Nat} {o : Option Bytes} {f : Field}
    (h : f ∈ optionalBytes number o) : f.number = number := by
  cases o with
  | none => exact absurd h List.not_mem_nil
  | some a => rw [List.mem_singleton.mp h]

/-- The last of at most one value is that value. -/
@[simp] theorem getLast?_toList {α : Type} (o : Option α) :
    o.toList.getLast? = o := by
  cases o <;> rfl

/-- Reading the last readable of at most one written value reads it. -/
@[simp] theorem findSome?_reverse_map_toList {α β : Type} (read : β → Option α)
    (write : α → β) (o : Option α) :
    ((o.map write).toList.reverse).findSome? read = o.bind (fun a => read (write a)) := by
  cases o with
  | none => rfl
  | some a => cases h : read (write a) <;> simp [h]

end Wire

/-! ## Coders -/

/-- **A writer and a reader of one type**, in which reading undoes
writing. -/
structure Coder (α : Type) where
  /-- The bytes of a value. -/
  serialize : α → Bytes
  /-- The value of a byte string, or `none` where it has none. -/
  parse : Bytes → Option α
  /-- Reading undoes writing. -/
  parse_serialize : ∀ a, parse (serialize a) = some a

namespace Coder

open Wire

variable {α : Type}

/-- **A coder from the fields of a type.** -/
def ofFields (toFields : α → List Field) (fromFields : List Field → Option α)
    (hpos : ∀ a, ∀ f ∈ toFields a, 0 < f.number)
    (h : ∀ a, fromFields (toFields a) = some a) : Coder α where
  serialize a := encodeFields (toFields a)
  parse b := (decodeFields b).bind fromFields
  parse_serialize a := by
    rw [decodeFields_encodeFields _ (hpos a), Option.bind_some, h]

attribute [simp] Coder.parse_serialize

/-- Two values with the same bytes are the same value. -/
theorem serialize_injective (C : Coder α) : Function.Injective C.serialize := by
  intro a b h
  have := C.parse_serialize a
  rw [h, C.parse_serialize] at this
  exact (Option.some.inj this).symm

/-- The value of each byte string, provided every one has one. -/
def parseAll (C : Coder α) : List Bytes → Option (List α)
  | [] => some []
  | b :: bs => (C.parse b).bind (fun a => (C.parseAll bs).map (fun l => a :: l))

/-- Reading every element of a list undoes writing every one. -/
@[simp] theorem parseAll_map_serialize (C : Coder α) (l : List α) :
    C.parseAll (l.map C.serialize) = some l := by
  induction l with
  | nil => rfl
  | cons a l ih =>
    rw [List.map_cons, parseAll, parse_serialize, ih]
    rfl

/-- The value of a field that holds exactly one message: its occurrences
are parts of one message and are read together. -/
def parseMerged (C : Coder α) : List Bytes → Option α
  | [] => none
  | bs => C.parse bs.flatten

@[simp] theorem parseMerged_singleton (C : Coder α) (a : α) :
    C.parseMerged [C.serialize a] = some a := by
  rw [parseMerged, List.flatten_singleton, parse_serialize]
  exact List.cons_ne_nil _ _

end Coder
