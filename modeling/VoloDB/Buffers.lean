import VoloDB.WireFormat

/-!
# Buffers of bytes

A **buffer** is what an allocation returns: a fixed number of cells, none of
which holds a value before it is written. Writing past the end and reading
past the end or before a value is there are undefined, and so have no
result here (`none`): a sequence of accesses has a result only when each of
them stays inside the buffer.

The accesses a program fills a buffer with are one after another
(`write_filled`): writing behind what has been written extends it.

A **little-endian number** is the fixed number of bytes a machine integer
takes up in memory, lowest first.
-/

/-! ## Reading and writing -/

/-- **A buffer**: its cells, empty until written. -/
abbrev Buffer := List (Option UInt8)

namespace Buffer

/-- A new buffer of `size` cells. -/
def alloc (size : Nat) : Buffer := List.replicate size none

/-- **Writing bytes from an offset on.** -/
def write (buffer : Buffer) (offset : Nat) (bytes : Bytes) : Option Buffer :=
  if offset + bytes.length ≤ buffer.length then
    some (buffer.take offset ++ bytes.map some ++ buffer.drop (offset + bytes.length))
  else none

/-- Writing one byte. -/
def store (buffer : Buffer) (offset : Nat) (byte : UInt8) : Option Buffer :=
  buffer.write offset [byte]

/-- `memset`: the first `size` cells are set to one byte. -/
def memset (buffer : Buffer) (byte : UInt8) (size : Nat) : Option Buffer :=
  buffer.write 0 (List.replicate size byte)

/-- **The first `size` bytes of a buffer**, all of which have to be there. -/
def read (buffer : Buffer) (size : Nat) : Option Bytes :=
  if size ≤ buffer.length then (buffer.take size).mapM id else none

/-- `memcpy` from another place in memory, of which `source` is known: the
first `size` bytes are copied to the offset. -/
def memcpy (buffer : Buffer) (offset : Nat) (source : Bytes) (size : Nat) : Option Buffer :=
  if size ≤ source.length then buffer.write offset (source.take size) else none

/-- A buffer whose first cells hold the given bytes, with room for `room`
more. -/
def filled (bytes : Bytes) (room : Nat) : Buffer :=
  bytes.map some ++ List.replicate room none

@[simp] theorem length_filled (bytes : Bytes) (room : Nat) :
    (filled bytes room).length = bytes.length + room := by
  simp [filled]

/-- A write that does not fit is undefined. -/
theorem write_eq_none {buffer : Buffer} {offset : Nat} {bytes : Bytes}
    (h : buffer.length < offset + bytes.length) : buffer.write offset bytes = none :=
  if_neg (Nat.not_le_of_lt h)

/-- **Writing behind what is there extends it.** -/
theorem write_filled (front bytes : Bytes) (room : Nat) :
    (filled front (bytes.length + room)).write front.length bytes
      = some (filled (front ++ bytes) room) := by
  have hfit : front.length + bytes.length ≤ (filled front (bytes.length + room)).length := by
    rw [length_filled]
    omega
  have htake : (filled front (bytes.length + room)).take front.length = front.map some := by
    unfold filled
    rw [List.take_append_of_le_length (by simp), List.take_of_length_le (by simp)]
  have hdrop : (filled front (bytes.length + room)).drop (front.length + bytes.length)
      = List.replicate room none := by
    unfold filled
    rw [List.drop_append, List.drop_eq_nil_of_le (by simp), List.drop_replicate,
      List.length_map, List.nil_append]
    congr 1
    omega
  unfold write
  rw [if_pos hfit, htake, hdrop]
  simp [filled]

/-- The first write into a new buffer. -/
theorem write_alloc (bytes : Bytes) (room : Nat) :
    (alloc (bytes.length + room)).write 0 bytes = some (filled bytes room) :=
  write_filled [] bytes room

/-- `memset` of a whole new buffer. -/
theorem memset_alloc (byte : UInt8) (size : Nat) :
    (alloc size).memset byte size = some (filled (List.replicate size byte) 0) := by
  have hwrite := write_alloc (List.replicate size byte) 0
  rw [List.length_replicate] at hwrite
  exact hwrite

/-- **Overwriting the front of a full buffer.** -/
theorem write_zero_filled {bytes old : Bytes} (h : bytes.length ≤ old.length) :
    (filled old 0).write 0 bytes = some (filled (bytes ++ old.drop bytes.length) 0) := by
  unfold write filled
  rw [if_pos (by simpa using h)]
  simp

/-- Reading no more than has been written gives it back. -/
theorem read_filled (bytes : Bytes) (room : Nat) :
    (filled bytes room).read bytes.length = some bytes := by
  have hmap : ∀ l : Bytes, (l.map some).mapM id = some l := by
    intro l
    induction l with
    | nil => rfl
    | cons x l ih => simp [ih]
  unfold read filled
  rw [if_pos (by simp), List.take_append_of_le_length (by simp),
    List.take_of_length_le (by simp), hmap]

/-- Reading past the end is undefined. -/
theorem read_eq_none {buffer : Buffer} {size : Nat} (h : buffer.length < size) :
    buffer.read size = none :=
  if_neg (Nat.not_le_of_lt h)

end Buffer

/-! ## Memory that is only read -/

/-- **Memory as a reader sees it**: the byte at an offset, if there is
one. -/
abbrev Memory := Nat → Option UInt8

namespace Memory

/-- The bytes of a string and nothing else. -/
def inside (bytes : Bytes) : Memory := fun offset => bytes[offset]?

/-- The bytes of a string with the NUL that `data()` keeps behind them. -/
def terminated (bytes : Bytes) : Memory := inside (bytes ++ [0])

/-- **Reading `count` bytes from an offset on**, each of which has to be
there. -/
def readFrom (memory : Memory) : Nat → Nat → Option Bytes
  | _, 0 => some []
  | offset, count + 1 => do
    let byte ← memory offset
    let bytes ← memory.readFrom (offset + 1) count
    some (byte :: bytes)

/-- **Reading stays inside** when what is read ends there. -/
theorem readFrom_inside {bytes : Bytes} {offset count : Nat}
    (h : offset + count ≤ bytes.length) :
    (inside bytes).readFrom offset count = some ((bytes.drop offset).take count) := by
  induction count generalizing offset with
  | zero => rfl
  | succ count ih =>
    have hoffset : offset < bytes.length := by omega
    have hbyte : inside bytes offset = some bytes[offset] :=
      List.getElem?_eq_getElem hoffset
    rw [readFrom, hbyte, ih (by omega), List.drop_eq_getElem_cons hoffset,
      List.take_succ_cons]
    rfl

/-- **Reading past the end** is undefined. -/
theorem readFrom_inside_eq_none {bytes : Bytes} {offset count : Nat}
    (h : bytes.length < offset + count) (hcount : 0 < count) :
    (inside bytes).readFrom offset count = none := by
  induction count generalizing offset with
  | zero => exact absurd hcount (Nat.lt_irrefl 0)
  | succ count ih =>
    rw [readFrom]
    by_cases hoffset : offset < bytes.length
    · -- The byte is there, so the rest of what is asked for is not.
      rw [ih (by omega) (by omega)]
      simp
    · have hbyte : inside bytes offset = none := List.getElem?_eq_none (by omega)
      rw [hbyte]
      rfl

/-- What is read is there exactly when it ends inside. -/
theorem readFrom_inside_ne_none {bytes : Bytes} {offset count : Nat} (hcount : 0 < count) :
    (inside bytes).readFrom offset count ≠ none ↔ offset + count ≤ bytes.length := by
  by_cases h : offset + count ≤ bytes.length
  · rw [readFrom_inside h]
    exact iff_of_true (Option.some_ne_none _) h
  · rw [readFrom_inside_eq_none (Nat.lt_of_not_le h) hcount]
    exact iff_of_false (fun hne => hne rfl) h

/-- Reading before the NUL does not meet it. -/
theorem readFrom_terminated {bytes : Bytes} {offset count : Nat}
    (h : offset + count ≤ bytes.length) :
    (terminated bytes).readFrom offset count = some ((bytes.drop offset).take count) := by
  have hfit : offset + count ≤ (bytes ++ [0]).length := by
    rw [List.length_append]
    exact Nat.le_add_right_of_le h
  have hcount : count ≤ (bytes.drop offset).length := by
    rw [List.length_drop]
    omega
  unfold terminated
  rw [readFrom_inside hfit, List.drop_append_of_le_length (by omega),
    List.take_append_of_le_length hcount]

/-- **Reading one byte too many** returns the NUL behind the rest. -/
theorem readFrom_terminated_succ {bytes : Bytes} {offset count : Nat}
    (h : offset + count = bytes.length) :
    (terminated bytes).readFrom offset (count + 1) = some (bytes.drop offset ++ [0]) := by
  have hfit : offset + (count + 1) ≤ (bytes ++ [0]).length := by
    rw [List.length_append, List.length_singleton]
    omega
  have hcount : (bytes.drop offset ++ [0]).length ≤ count + 1 := by
    rw [List.length_append, List.length_drop, List.length_singleton]
    omega
  unfold terminated
  rw [readFrom_inside hfit, List.drop_append_of_le_length (by omega),
    List.take_of_length_le hcount]

end Memory

/-! ## Little-endian numbers -/

/-- The lowest `width` bytes of a number, lowest first. -/
def littleEndian : Nat → Nat → Bytes
  | 0, _ => []
  | width + 1, n => UInt8.ofNat n :: littleEndian width (n / 256)

/-- The number of bytes in memory, lowest first. -/
def ofLittleEndian : Bytes → Nat
  | [] => 0
  | byte :: bytes => byte.toNat + 256 * ofLittleEndian bytes

@[simp] theorem length_littleEndian (width n : Nat) :
    (littleEndian width n).length = width := by
  induction width generalizing n with
  | zero => rfl
  | succ width ih => rw [littleEndian, List.length_cons, ih]

/-- **The bytes of a number give its remainder back.** -/
theorem ofLittleEndian_littleEndian (width n : Nat) :
    ofLittleEndian (littleEndian width n) = n % 256 ^ width := by
  induction width generalizing n with
  | zero => rw [littleEndian, ofLittleEndian, Nat.pow_zero, Nat.mod_one]
  | succ width ih =>
    have hbyte : (UInt8.ofNat n).toNat = n % 256 := UInt8.toNat_ofNat'
    rw [littleEndian, ofLittleEndian, ih, hbyte, Nat.pow_succ', Nat.mod_mul]

/-- A number that fits its width is given back as it is. -/
theorem ofLittleEndian_littleEndian_of_lt {width n : Nat} (h : n < 256 ^ width) :
    ofLittleEndian (littleEndian width n) = n := by
  rw [ofLittleEndian_littleEndian, Nat.mod_eq_of_lt h]
