import Mathlib.Data.List.Forall2
import VoloDB.Buffers
import VoloDB.Messages

/-!
# Column values as bytes

`ColumnsValueBuilder` puts a typed value into the bytes of a column,
`ColumnsValueDecoder` takes it out again. The two meet in the format alone:
a machine integer lies in the bytes as it lies in memory, a `CHAR` is padded
with spaces to its size, and a `VARCHAR` or `VARBINARY` comes behind two
bytes that hold its length.

Neither side checks what it is given. The builder cuts a length to sixteen
bits before it allocates and copies a text by the length of the text; the
decoder reads as many bytes as the type asks for, or as the two bytes claim
and one more. `addsOrRejects_iff`, `readsInside_iff` and `roundTrips_iff`
say exactly where this goes well.
-/

namespace VoloDB

/-! ## The builder -/

/-- `ColumnsValueBuilder`: the columns built so far. -/
structure ColumnsValueBuilder where
  columns : List ColumnValue
deriving DecidableEq

namespace ColumnsValueBuilder

/-- `EXTENDED_ATTIBUTE_LENGTH_SIZE_FOR_PREPEND`. -/
def extendedAttibuteLengthSizeForPrepend : Nat := 2

/-- `strlen` of the text at a pointer, which ends before the first NUL. -/
def strlen (text : Bytes) : Nat := (cStr text).length

/-- **The bytes of a machine value**, as a pointer to it shows them. -/
def inMemory (width value : Nat) : Buffer := Buffer.filled (littleEndian width value) 0

/-- `_prependLength`. The type of the length keeps its lower sixteen bits. -/
def prependLength (data : Bytes) (length : UInt16) (lengthSize : Nat) : Option Buffer := do
  let dataWithLength := Buffer.alloc (lengthSize + length.toNat)
  let dataWithLength ←
    if lengthSize = 1 then dataWithLength.store 0 length.toUInt8
    else do
      let dataWithLength ← dataWithLength.store 0 (length &&& 0x00FF).toUInt8
      dataWithLength.store 1 ((length &&& 0xFF00) >>> 8).toUInt8
  dataWithLength.memcpy lengthSize data length.toNat

variable (builder : ColumnsValueBuilder) (name : Bytes)

/-- `_addColumnInternal`: the first `size` bytes at `value` become the value
of a new last column. -/
def addColumnInternal (type : ColumnType) (value : Buffer) (size : Nat)
    (isPrimaryKey isDistibutedKey : Bool) : Option ColumnsValueBuilder := do
  let bytes ← value.read size
  let column : ColumnValue :=
    { name := name, type := some type, primaryKey := some isPrimaryKey,
      distributionKey := some isDistibutedKey, value := bytes }
  some ⟨builder.columns ++ [column]⟩

/-- `addBoolColumn`. -/
def addBoolColumn (value isPrimaryKey isDistibutedKey : Bool) : Option ColumnsValueBuilder :=
  builder.addColumnInternal name .bool (inMemory 1 value.toNat) 1 isPrimaryKey isDistibutedKey

/-- `addInt32Column`. -/
def addInt32Column (value : Int32) (isPrimaryKey isDistibutedKey : Bool) :
    Option ColumnsValueBuilder :=
  builder.addColumnInternal name .int32 (inMemory 4 value.toUInt32.toNat) 4 isPrimaryKey
    isDistibutedKey

/-- `addUInt32Column`. -/
def addUInt32Column (value : UInt32) (isPrimaryKey isDistibutedKey : Bool) :
    Option ColumnsValueBuilder :=
  builder.addColumnInternal name .uint32 (inMemory 4 value.toNat) 4 isPrimaryKey
    isDistibutedKey

/-- `addInt64Column`. -/
def addInt64Column (value : Int64) (isPrimaryKey isDistibutedKey : Bool) :
    Option ColumnsValueBuilder :=
  builder.addColumnInternal name .int64 (inMemory 8 value.toUInt64.toNat) 8 isPrimaryKey
    isDistibutedKey

/-- `addUInt64Column`. -/
def addUInt64Column (value : UInt64) (isPrimaryKey isDistibutedKey : Bool) :
    Option ColumnsValueBuilder :=
  builder.addColumnInternal name .uint64 (inMemory 8 value.toNat) 8 isPrimaryKey
    isDistibutedKey

/-- `addFloatColumn`, of a float given by its bits. -/
def addFloatColumn (value : UInt32) (isPrimaryKey isDistibutedKey : Bool) :
    Option ColumnsValueBuilder :=
  builder.addColumnInternal name .float (inMemory 4 value.toNat) 4 isPrimaryKey
    isDistibutedKey

/-- `addDoubleColumn`, of a double given by its bits. -/
def addDoubleColumn (value : UInt64) (isPrimaryKey isDistibutedKey : Bool) :
    Option ColumnsValueBuilder :=
  builder.addColumnInternal name .double (inMemory 8 value.toNat) 8 isPrimaryKey
    isDistibutedKey

/-- `addCharColumn`. The buffer has the size of the column; what is copied
into it has the length of the text. -/
def addCharColumn (value : Bytes) (size : Nat) (isPrimaryKey isDistibutedKey : Bool) :
    Option ColumnsValueBuilder := do
  let newSpacePaddedValue := Buffer.alloc size
  let newSpacePaddedValue ← newSpacePaddedValue.memset 32 size
  let newSpacePaddedValue ← newSpacePaddedValue.memcpy 0 value (strlen value)
  builder.addColumnInternal name .char newSpacePaddedValue size isPrimaryKey isDistibutedKey

/-- `addVarCharColumn`. -/
def addVarCharColumn (value : Bytes) (isPrimaryKey isDistibutedKey : Bool) :
    Option ColumnsValueBuilder := do
  let dataWithLength ← prependLength value (UInt16.ofNat value.length)
    extendedAttibuteLengthSizeForPrepend
  builder.addColumnInternal name .varchar dataWithLength
    (value.length + extendedAttibuteLengthSizeForPrepend) isPrimaryKey isDistibutedKey

/-- `addVarBinaryColumn`, of the `size` bytes at a pointer. -/
def addVarBinaryColumn (value : Bytes) (size : Nat) (isPrimaryKey isDistibutedKey : Bool) :
    Option ColumnsValueBuilder := do
  let dataWithLength ← prependLength value (UInt16.ofNat size)
    extendedAttibuteLengthSizeForPrepend
  builder.addColumnInternal name .varbinary dataWithLength
    (size + extendedAttibuteLengthSizeForPrepend) isPrimaryKey isDistibutedKey

/-- `getColumns`. -/
def getColumns : List ColumnValue := builder.columns

end ColumnsValueBuilder

/-! ## The decoder

The bytes of a value are read through `data`, the memory behind
`columnValue.value().data()`. -/

/-- **What a getter returns.** -/
inductive DecodedValue where
  | bool (value : Bool)
  | int32 (value : Int32)
  | uint32 (value : UInt32)
  | int64 (value : Int64)
  | uint64 (value : UInt64)
  /-- A float, by its bits. -/
  | float (bits : UInt32)
  /-- A double, by its bits. -/
  | double (bits : UInt64)
  /-- The buffer a `CHAR` has been copied to. -/
  | char (charValue : Buffer)
  | varchar (value : Bytes)
  | varbinary (value : Bytes)
deriving DecidableEq

namespace ColumnsValueDecoder

variable (data : Bytes → Memory) (columnValue : ColumnValue)

/-- `getLength`. -/
def getLength : Option Nat := do
  let low ← data columnValue.value 0
  let high ← data columnValue.value 1
  some (low.toNat + high.toNat <<< 8)

/-- A machine value of the given width at the front of the bytes. -/
def deref (width : Nat) : Option Nat :=
  ((data columnValue.value).readFrom 0 width).map ofLittleEndian

/-- `getBool`. -/
def getBool : Option Bool := (deref data columnValue 1).map (fun n => n ≠ 0)

/-- `getInt32`. -/
def getInt32 : Option Int32 :=
  (deref data columnValue 4).map (fun n => (UInt32.ofNat n).toInt32)

/-- `getUInt32`. -/
def getUInt32 : Option UInt32 := (deref data columnValue 4).map UInt32.ofNat

/-- `getInt64`. -/
def getInt64 : Option Int64 :=
  (deref data columnValue 8).map (fun n => (UInt64.ofNat n).toInt64)

/-- `getUInt64`. -/
def getUInt64 : Option UInt64 := (deref data columnValue 8).map UInt64.ofNat

/-- `getFloat`, as the bits of the float. -/
def getFloat : Option UInt32 := (deref data columnValue 4).map UInt32.ofNat

/-- `getDouble`, as the bits of the double. -/
def getDouble : Option UInt64 := (deref data columnValue 8).map UInt64.ofNat

/-- `getChar`: a copy of all bytes. -/
def getChar : Option Buffer := do
  let size := columnValue.value.length
  let charValue := Buffer.alloc size
  let charValue ← charValue.memset 0 size
  let bytes ← (data columnValue.value).readFrom 0 size
  charValue.memcpy 0 bytes size

/-- `getVarChar`. One byte more is read than the length says. -/
def getVarChar : Option Bytes := do
  let length := (← getLength data columnValue) + 1
  (data columnValue.value).readFrom 2 length

/-- `getVarBinary`. -/
def getVarBinary : Option Bytes := getVarChar data columnValue

/-- **The getter of a type**, as `Executor::printResult` picks it. -/
def getter : ColumnType → Option DecodedValue
  | .bool => (getBool data columnValue).map .bool
  | .int32 => (getInt32 data columnValue).map .int32
  | .uint32 => (getUInt32 data columnValue).map .uint32
  | .int64 => (getInt64 data columnValue).map .int64
  | .uint64 => (getUInt64 data columnValue).map .uint64
  | .float => (getFloat data columnValue).map .float
  | .double => (getDouble data columnValue).map .double
  | .char => (getChar data columnValue).map .char
  | .varchar => (getVarChar data columnValue).map .varchar
  | .varbinary => (getVarBinary data columnValue).map .varbinary

end ColumnsValueDecoder

/-! ## Calls of the builder -/

/-- **What an `add…Column` is given**, besides the name and the key flags. -/
inductive ColumnData where
  | bool (value : Bool)
  | int32 (value : Int32)
  | uint32 (value : UInt32)
  | int64 (value : Int64)
  | uint64 (value : UInt64)
  /-- A float, by its bits. -/
  | float (bits : UInt32)
  /-- A double, by its bits. -/
  | double (bits : UInt64)
  /-- The text at a pointer, and the size of the column. -/
  | char (value : Bytes) (size : Nat)
  | varchar (value : Bytes)
  /-- The bytes at a pointer, and how many of them are meant. -/
  | varbinary (value : Bytes) (size : Nat)
deriving DecidableEq

/-- **A call of an `add…Column`.** -/
structure AddCall where
  name : Bytes
  data : ColumnData
  isPrimaryKey : Bool
  isDistibutedKey : Bool
deriving DecidableEq

namespace ColumnData

open ColumnsValueBuilder

/-- The type of the column the call adds. -/
def type : ColumnData → ColumnType
  | bool _ => .bool
  | int32 _ => .int32
  | uint32 _ => .uint32
  | int64 _ => .int64
  | uint64 _ => .uint64
  | float _ => .float
  | double _ => .double
  | char _ _ => .char
  | varchar _ => .varchar
  | varbinary _ _ => .varbinary

/-- The text of a `CHAR`, padded with spaces to its size. -/
def padded (value : Bytes) (size : Nat) : Bytes :=
  cStr value ++ List.replicate (size - strlen value) 32

/-- The bytes behind their length. -/
def prefixed (data : Bytes) : Bytes := littleEndian 2 data.length ++ data

/-- **The format**: the bytes of a column that holds the value. -/
def bytes : ColumnData → Bytes
  | bool value => littleEndian 1 value.toNat
  | int32 value => littleEndian 4 value.toUInt32.toNat
  | uint32 value => littleEndian 4 value.toNat
  | int64 value => littleEndian 8 value.toUInt64.toNat
  | uint64 value => littleEndian 8 value.toNat
  | float bits => littleEndian 4 bits.toNat
  | double bits => littleEndian 8 bits.toNat
  | char value size => padded value size
  | varchar value => prefixed value
  | varbinary value size => prefixed (value.take size)

/-- **The value fits its column**: a text its size, a length sixteen bits. -/
def Fits : ColumnData → Prop
  | char value size => strlen value ≤ size
  | varchar value => value.length < 65536
  | varbinary _ size => size < 65536
  | _ => True

/-- The memory the caller passes holds as many bytes as it says. -/
def Readable : ColumnData → Prop
  | varbinary value size => size ≤ value.length
  | _ => True

/-- The value has a length of its own. -/
def IsVariable : ColumnData → Prop
  | varchar _ => True
  | varbinary _ _ => True
  | _ => False

instance (data : ColumnData) : Decidable data.Fits := by
  cases data <;> unfold Fits <;> infer_instance

instance (data : ColumnData) : Decidable data.Readable := by
  cases data <;> unfold Readable <;> infer_instance

instance (data : ColumnData) : Decidable data.IsVariable := by
  cases data <;> unfold IsVariable <;> infer_instance

/-- **What the getter of the type should return.** -/
def stored : ColumnData → DecodedValue
  | bool value => .bool value
  | int32 value => .int32 value
  | uint32 value => .uint32 value
  | int64 value => .int64 value
  | uint64 value => .uint64 value
  | float bits => .float bits
  | double bits => .double bits
  | char value size => .char (Buffer.filled (padded value size) 0)
  | varchar value => .varchar value
  | varbinary value size => .varbinary (value.take size)

end ColumnData

namespace AddCall

/-- The call. -/
def add (call : AddCall) (builder : ColumnsValueBuilder) : Option ColumnsValueBuilder :=
  match call.data with
  | .bool value =>
    builder.addBoolColumn call.name value call.isPrimaryKey call.isDistibutedKey
  | .int32 value =>
    builder.addInt32Column call.name value call.isPrimaryKey call.isDistibutedKey
  | .uint32 value =>
    builder.addUInt32Column call.name value call.isPrimaryKey call.isDistibutedKey
  | .int64 value =>
    builder.addInt64Column call.name value call.isPrimaryKey call.isDistibutedKey
  | .uint64 value =>
    builder.addUInt64Column call.name value call.isPrimaryKey call.isDistibutedKey
  | .float bits =>
    builder.addFloatColumn call.name bits call.isPrimaryKey call.isDistibutedKey
  | .double bits =>
    builder.addDoubleColumn call.name bits call.isPrimaryKey call.isDistibutedKey
  | .char value size =>
    builder.addCharColumn call.name value size call.isPrimaryKey call.isDistibutedKey
  | .varchar value =>
    builder.addVarCharColumn call.name value call.isPrimaryKey call.isDistibutedKey
  | .varbinary value size =>
    builder.addVarBinaryColumn call.name value size call.isPrimaryKey call.isDistibutedKey

/-- The column the call is to add. -/
def column (call : AddCall) : ColumnValue where
  name := call.name
  type := some call.data.type
  primaryKey := some call.isPrimaryKey
  distributionKey := some call.isDistibutedKey
  value := call.data.bytes

/-- One call after another. -/
def addAll : List AddCall → ColumnsValueBuilder → Option ColumnsValueBuilder
  | [], builder => some builder
  | call :: calls, builder => (call.add builder).bind (addAll calls)

end AddCall

/-! ## What a call does -/

namespace ColumnsValueBuilder

/-- The lower byte of a length. -/
theorem toUInt8_and_low (length : UInt16) :
    (length &&& 0x00FF).toUInt8 = UInt8.ofNat length.toNat := by
  have hmask : length.toNat &&& 255 = length.toNat % 256 :=
    Nat.and_two_pow_sub_one_eq_mod length.toNat 8
  refine UInt8.toNat_inj.mp ?_
  rw [UInt16.toNat_toUInt8, UInt16.toNat_and, UInt8.toNat_ofNat']
  show (length.toNat &&& 255) % 256 = length.toNat % 256
  rw [hmask, Nat.mod_mod]

/-- The upper byte of a length. -/
theorem toUInt8_and_high (length : UInt16) :
    ((length &&& 0xFF00) >>> 8).toUInt8 = UInt8.ofNat (length.toNat / 256) := by
  have hmask : length.toNat / 256 &&& 255 = length.toNat / 256 % 256 :=
    Nat.and_two_pow_sub_one_eq_mod (length.toNat / 256) 8
  refine UInt8.toNat_inj.mp ?_
  rw [UInt16.toNat_toUInt8, UInt16.toNat_shiftRight, UInt16.toNat_and, UInt8.toNat_ofNat']
  show (length.toNat &&& 0xFF00) >>> 8 % 256 = length.toNat / 256 % 256
  rw [Nat.shiftRight_and_distrib, Nat.shiftRight_eq_div_pow]
  show (length.toNat / 256 &&& 255) % 256 = length.toNat / 256 % 256
  rw [hmask, Nat.mod_mod]

/-- **`_prependLength`** of data that is at least as long as the length:
the buffer holds the length and as much of the data. -/
theorem prependLength_eq {data : Bytes} {length : UInt16} (h : length.toNat ≤ data.length) :
    prependLength data length extendedAttibuteLengthSizeForPrepend
      = some (Buffer.filled (littleEndian 2 length.toNat ++ data.take length.toNat) 0) := by
  have hlow : (Buffer.alloc (2 + length.toNat)).store 0 (length &&& 0x00FF).toUInt8
      = some (Buffer.filled [UInt8.ofNat length.toNat] (1 + length.toNat)) := by
    rw [toUInt8_and_low, show 2 + length.toNat = 1 + (1 + length.toNat) by omega]
    exact Buffer.write_alloc [UInt8.ofNat length.toNat] (1 + length.toNat)
  have hhigh : (Buffer.filled [UInt8.ofNat length.toNat] (1 + length.toNat)).store 1
        ((length &&& 0xFF00) >>> 8).toUInt8
      = some (Buffer.filled (littleEndian 2 length.toNat) length.toNat) := by
    rw [toUInt8_and_high]
    exact Buffer.write_filled [UInt8.ofNat length.toNat] [UInt8.ofNat (length.toNat / 256)]
      length.toNat
  have hcopy : (Buffer.filled (littleEndian 2 length.toNat) length.toNat).memcpy 2 data
        length.toNat
      = some (Buffer.filled (littleEndian 2 length.toNat ++ data.take length.toNat) 0) := by
    have hwrite := Buffer.write_filled (littleEndian 2 length.toNat) (data.take length.toNat) 0
    rw [List.length_take_of_le h, length_littleEndian] at hwrite
    exact (if_pos h).trans hwrite
  unfold prependLength
  rw [if_neg (by decide)]
  show ((Buffer.alloc (2 + length.toNat)).store 0 (length &&& 0x00FF).toUInt8).bind
      (fun buffer => (buffer.store 1 ((length &&& 0xFF00) >>> 8).toUInt8).bind
        (fun buffer => buffer.memcpy 2 data length.toNat)) = _
  rw [hlow, Option.bind_some, hhigh, Option.bind_some]
  exact hcopy

/-- A value that fits its sixteen bits is put behind its length. -/
theorem prependLength_of_lt {data : Bytes} {size : Nat} (hsize : size ≤ data.length)
    (h : size < 65536) :
    prependLength data (UInt16.ofNat size) extendedAttibuteLengthSizeForPrepend
      = some (Buffer.filled (ColumnData.prefixed (data.take size)) 0) := by
  have hnat : (UInt16.ofNat size).toNat = size := by
    rw [UInt16.toNat_ofNat']
    exact Nat.mod_eq_of_lt h
  rw [prependLength_eq (hnat.symm ▸ hsize), hnat]
  unfold ColumnData.prefixed
  rw [List.length_take_of_le hsize]

/-- **A longer value gets a buffer that is too short for it**: as many bytes
as the lower sixteen bits say. -/
theorem prependLength_of_ge {data : Bytes} {size : Nat} (hsize : size ≤ data.length)
    (h : 65536 ≤ size) :
    ∃ buffer, prependLength data (UInt16.ofNat size) extendedAttibuteLengthSizeForPrepend
        = some buffer ∧ buffer.length < size + extendedAttibuteLengthSizeForPrepend := by
  have hlt : (UInt16.ofNat size).toNat < 65536 := UInt16.toNat_lt _
  refine ⟨_, prependLength_eq (by omega), ?_⟩
  rw [Buffer.length_filled, List.length_append, length_littleEndian, List.length_take]
  show 2 + min (UInt16.ofNat size).toNat data.length + 0 < size + 2
  omega

/-- A text lies before the first NUL. -/
theorem strlen_le (value : Bytes) : strlen value ≤ value.length :=
  (List.takeWhile_prefix _).length_le

/-- A buffer of the padded text, once the text is copied over the spaces. -/
theorem memcpy_spaces {value : Bytes} {size : Nat} (h : strlen value ≤ size) :
    (Buffer.filled (List.replicate size 32) 0).memcpy 0 value (strlen value)
      = some (Buffer.filled (ColumnData.padded value size) 0) := by
  have htext : value.take (strlen value) = cStr value :=
    (List.prefix_iff_eq_take.mp (List.takeWhile_prefix _)).symm
  have hfit : (cStr value).length ≤ (List.replicate size (32 : UInt8)).length := by
    rw [List.length_replicate]
    exact h
  unfold Buffer.memcpy
  rw [if_pos (strlen_le value), htext, Buffer.write_zero_filled hfit, List.drop_replicate]
  rfl

section Columns

variable {builder : ColumnsValueBuilder} {name value : Bytes} {type : ColumnType}
  {size : Nat} {isPrimaryKey isDistibutedKey : Bool}

/-- `_addColumnInternal` of a full buffer. -/
theorem addColumnInternal_filled {bytes : Bytes} (h : bytes.length = size) :
    builder.addColumnInternal name type (Buffer.filled bytes 0) size isPrimaryKey
        isDistibutedKey
      = some ⟨builder.columns ++ [⟨name, some type, some isPrimaryKey,
          some isDistibutedKey, bytes⟩]⟩ := by
  unfold addColumnInternal
  rw [← h, Buffer.read_filled]
  rfl

/-- **`addCharColumn` of a text that fits its size.** -/
theorem addCharColumn_of_le (h : strlen value ≤ size) :
    builder.addCharColumn name value size isPrimaryKey isDistibutedKey
      = some ⟨builder.columns ++ [⟨name, some .char, some isPrimaryKey,
          some isDistibutedKey, ColumnData.padded value size⟩]⟩ := by
  have hlength : (ColumnData.padded value size).length = size := by
    unfold ColumnData.padded
    rw [List.length_append, List.length_replicate]
    exact Nat.add_sub_cancel' h
  show ((Buffer.alloc size).memset 32 size).bind (fun buffer =>
    (buffer.memcpy 0 value (strlen value)).bind (fun buffer =>
      builder.addColumnInternal name .char buffer size isPrimaryKey isDistibutedKey)) = _
  rw [Buffer.memset_alloc, Option.bind_some, memcpy_spaces h, Option.bind_some,
    addColumnInternal_filled hlength]

/-- **`addCharColumn` of a longer text** copies past the end of its
buffer. -/
theorem addCharColumn_of_lt (h : size < strlen value) :
    builder.addCharColumn name value size isPrimaryKey isDistibutedKey = none := by
  have hcopy : (Buffer.filled (List.replicate size 32) 0).memcpy 0 value (strlen value)
      = none := by
    refine (if_pos (strlen_le value)).trans (Buffer.write_eq_none ?_)
    rw [Buffer.length_filled, List.length_replicate,
      List.length_take_of_le (strlen_le value)]
    omega
  show ((Buffer.alloc size).memset 32 size).bind (fun buffer =>
    (buffer.memcpy 0 value (strlen value)).bind (fun buffer =>
      builder.addColumnInternal name .char buffer size isPrimaryKey isDistibutedKey)) = _
  rw [Buffer.memset_alloc, Option.bind_some, hcopy]
  rfl

/-- What `addVarCharColumn` and `addVarBinaryColumn` do with `size` bytes. -/
def addPrefixed (builder : ColumnsValueBuilder) (name value : Bytes) (type : ColumnType)
    (size : Nat) (isPrimaryKey isDistibutedKey : Bool) : Option ColumnsValueBuilder :=
  (prependLength value (UInt16.ofNat size) extendedAttibuteLengthSizeForPrepend).bind
    (fun dataWithLength => builder.addColumnInternal name type dataWithLength
      (size + extendedAttibuteLengthSizeForPrepend) isPrimaryKey isDistibutedKey)

/-- **A value whose length fits sixteen bits** is added behind it. -/
theorem addPrefixed_of_lt (hsize : size ≤ value.length) (h : size < 65536) :
    addPrefixed builder name value type size isPrimaryKey isDistibutedKey
      = some ⟨builder.columns ++ [⟨name, some type, some isPrimaryKey,
          some isDistibutedKey, ColumnData.prefixed (value.take size)⟩]⟩ := by
  have hlength : (ColumnData.prefixed (value.take size)).length
      = size + extendedAttibuteLengthSizeForPrepend := by
    unfold ColumnData.prefixed
    rw [List.length_append, length_littleEndian, List.length_take_of_le hsize]
    exact Nat.add_comm 2 size
  unfold addPrefixed
  rw [prependLength_of_lt hsize h, Option.bind_some, addColumnInternal_filled hlength]

/-- **A longer value** is read past the end of the buffer made for it. -/
theorem addPrefixed_of_ge (hsize : size ≤ value.length) (h : 65536 ≤ size) :
    addPrefixed builder name value type size isPrimaryKey isDistibutedKey = none := by
  obtain ⟨buffer, heq, hshort⟩ := prependLength_of_ge hsize h
  unfold addPrefixed addColumnInternal
  rw [heq, Option.bind_some, Buffer.read_eq_none hshort]
  rfl

end Columns

end ColumnsValueBuilder

namespace AddCall

open ColumnsValueBuilder ColumnData

/-- **A call whose value fits adds its column.** -/
theorem add_of_fits {call : AddCall} (builder : ColumnsValueBuilder)
    (hread : call.data.Readable) (h : call.data.Fits) :
    call.add builder = some ⟨builder.columns ++ [call.column]⟩ := by
  obtain ⟨name, data, isPrimaryKey, isDistibutedKey⟩ := call
  cases data with
  | bool value => exact addColumnInternal_filled (length_littleEndian 1 _)
  | int32 value => exact addColumnInternal_filled (length_littleEndian 4 _)
  | uint32 value => exact addColumnInternal_filled (length_littleEndian 4 _)
  | int64 value => exact addColumnInternal_filled (length_littleEndian 8 _)
  | uint64 value => exact addColumnInternal_filled (length_littleEndian 8 _)
  | float bits => exact addColumnInternal_filled (length_littleEndian 4 _)
  | double bits => exact addColumnInternal_filled (length_littleEndian 8 _)
  | char value size => exact addCharColumn_of_le h
  | varchar value =>
    refine (addPrefixed_of_lt (Nat.le_refl value.length) h).trans ?_
    rw [List.take_length]
    rfl
  | varbinary value size => exact addPrefixed_of_lt hread h

/-- **A call whose value does not fit is undefined.** -/
theorem add_of_not_fits {call : AddCall} (builder : ColumnsValueBuilder)
    (hread : call.data.Readable) (h : ¬ call.data.Fits) : call.add builder = none := by
  obtain ⟨name, data, isPrimaryKey, isDistibutedKey⟩ := call
  cases data with
  | char value size => exact addCharColumn_of_lt (Nat.lt_of_not_le h)
  | varchar value => exact addPrefixed_of_ge (Nat.le_refl value.length) (Nat.le_of_not_lt h)
  | varbinary value size => exact addPrefixed_of_ge hread (Nat.le_of_not_lt h)
  | _ => exact absurd trivial h

end AddCall

/-! ## Adding a column or rejecting its value -/

/-- **The bytes hold the value**, as the format asks for it: a text followed
by spaces to its size, data behind two bytes that are its length. -/
def ColumnData.Holds : ColumnData → Bytes → Prop
  | .char value size, bytes =>
    bytes.length = size ∧ ∃ n, bytes = cStr value ++ List.replicate n 32
  | .varchar value, bytes =>
    ∃ front, bytes = front ++ value ∧ front.length = 2
      ∧ ofLittleEndian front = value.length
  | .varbinary value size, bytes =>
    ∃ front, bytes = front ++ value.take size ∧ front.length = 2
      ∧ ofLittleEndian front = size
  | data, bytes => bytes = data.bytes

/-- The column a call should add. -/
structure AddCall.WellFormed (call : AddCall) (column : ColumnValue) : Prop where
  name : column.name = call.name
  type : column.type = some call.data.type
  primaryKey : column.primaryKey = some call.isPrimaryKey
  distributionKey : column.distributionKey = some call.isDistibutedKey
  value : call.data.Holds column.value

/-- **The call adds a well-formed column or rejects the value**, without
leaving the buffers on the way. -/
def AddCall.AddsOrRejects (call : AddCall) (builder : ColumnsValueBuilder) : Prop :=
  ∃ after, call.add builder = some after ∧
    (after = builder ∨ ∃ column, after.columns = builder.columns ++ [column]
      ∧ call.WellFormed column)

/-- Data behind its length, when the length fits two bytes. -/
theorem ColumnData.holds_prefixed {data : Bytes} (h : data.length < 65536) :
    ∃ front, prefixed data = front ++ data ∧ front.length = 2
      ∧ ofLittleEndian front = data.length :=
  ⟨littleEndian 2 data.length, rfl, length_littleEndian 2 _,
    ofLittleEndian_littleEndian_of_lt h⟩

/-- A value that fits is held by the bytes of its format. -/
theorem ColumnData.holds_bytes {data : ColumnData} (hread : data.Readable) (h : data.Fits) :
    data.Holds data.bytes := by
  cases data with
  | char value size =>
    refine ⟨?_, _, rfl⟩
    show (padded value size).length = size
    unfold padded
    rw [List.length_append, List.length_replicate]
    exact Nat.add_sub_cancel' h
  | varchar value => exact holds_prefixed h
  | varbinary value size =>
    have hlength : (value.take size).length = size := List.length_take_of_le hread
    have hsize : (value.take size).length < 65536 := by rwa [hlength]
    have hholds := holds_prefixed hsize
    rw [hlength] at hholds
    exact hholds
  | _ => rfl

/-- A call that goes well had a value that fits. -/
theorem AddCall.AddsOrRejects.fits {call : AddCall} {builder : ColumnsValueBuilder}
    (h : call.AddsOrRejects builder) (hread : call.data.Readable) : call.data.Fits := by
  obtain ⟨after, hadd, -⟩ := h
  by_contra hfits
  rw [add_of_not_fits builder hread hfits] at hadd
  exact Option.some_ne_none after hadd.symm

/-- **A call goes well exactly when its value fits its column**: the text of
a `CHAR` its size, the length of a `VARCHAR` or `VARBINARY` sixteen bits. -/
theorem AddCall.addsOrRejects_iff (call : AddCall) (builder : ColumnsValueBuilder)
    (hread : call.data.Readable) : call.AddsOrRejects builder ↔ call.data.Fits := by
  refine ⟨fun h => h.fits hread, fun hfits => ?_⟩
  refine ⟨_, add_of_fits builder hread hfits, Or.inr ⟨call.column, rfl, ?_⟩⟩
  exact ⟨rfl, rfl, rfl, rfl, ColumnData.holds_bytes hread hfits⟩

/-- The first byte of two, as a value of its own. -/
theorem AddCall.addsOrRejects_varbinary :
    (⟨ascii "v", .varbinary (ascii "ab") 1, false, false⟩ : AddCall).AddsOrRejects ⟨[]⟩ :=
  (AddCall.addsOrRejects_iff ⟨ascii "v", .varbinary (ascii "ab") 1, false, false⟩ ⟨[]⟩
    (by decide)).mpr (by decide)

/-- **A text longer than its column, and a value of 65536 bytes.** -/
theorem AddCall.not_addsOrRejects_too_long :
    ¬ (⟨ascii "c", .char (ascii "ab") 1, false, false⟩ : AddCall).AddsOrRejects ⟨[]⟩
    ∧ ¬ (⟨ascii "v", .varchar (List.replicate 65536 97), false, false⟩ :
        AddCall).AddsOrRejects ⟨[]⟩ := by
  refine ⟨fun h => ?_, fun h => ?_⟩
  · exact absurd (h.fits trivial) (by decide)
  · have hfits : (List.replicate 65536 (97 : UInt8)).length < 65536 := h.fits trivial
    rw [List.length_replicate] at hfits
    exact Nat.lt_irrefl 65536 hfits

/-! ## Reading only what is there -/

namespace ColumnsValueDecoder

/-- **The getter of a type reads only bytes inside the value.** -/
def ReadsInside (columnValue : ColumnValue) (type : ColumnType) : Prop :=
  getter Memory.inside columnValue type ≠ none

instance (columnValue : ColumnValue) (type : ColumnType) :
    Decidable (ReadsInside columnValue type) :=
  inferInstanceAs (Decidable (getter Memory.inside columnValue type ≠ none))

/-- The length the first two bytes claim. -/
def claimedLength : Bytes → Nat
  | low :: high :: _ => low.toNat + high.toNat * 256
  | _ => 0

/-- **The size a value has to have** for the getter of a type. -/
def requiredSize (value : Bytes) : ColumnType → Nat
  | .bool => 1
  | .int32 | .uint32 | .float => 4
  | .int64 | .uint64 | .double => 8
  | .char => 0
  | .varchar | .varbinary => 2 + (claimedLength value + 1)

/-- A machine value needs its width. -/
theorem deref_inside_ne_none {columnValue : ColumnValue} {width : Nat} (hwidth : 0 < width) :
    deref Memory.inside columnValue width ≠ none ↔ width ≤ columnValue.value.length := by
  refine Option.map_eq_none_iff.not.trans ((Memory.readFrom_inside_ne_none hwidth).trans ?_)
  rw [Nat.zero_add]

/-- `getLength` of a value with at least two bytes. -/
theorem getLength_inside {columnValue : ColumnValue} (h : 2 ≤ columnValue.value.length) :
    getLength Memory.inside columnValue = some (claimedLength columnValue.value) := by
  unfold getLength
  match hvalue : columnValue.value, h with
  | low :: high :: value, _ =>
    show some (low.toNat + high.toNat <<< 8) = some (low.toNat + high.toNat * 256)
    rw [Nat.shiftLeft_eq]

/-- `getLength` of a shorter value reads past its end. -/
theorem getLength_inside_eq_none {columnValue : ColumnValue}
    (h : columnValue.value.length < 2) : getLength Memory.inside columnValue = none := by
  unfold getLength
  match hvalue : columnValue.value, h with
  | [], _ => rfl
  | [low], _ => rfl

/-- `getVarChar` behind a length. -/
theorem getVarChar_of_getLength {data : Bytes → Memory} {columnValue : ColumnValue}
    {length : Nat} (h : getLength data columnValue = some length) :
    getVarChar data columnValue = (data columnValue.value).readFrom 2 (length + 1) := by
  unfold getVarChar
  rw [h]
  rfl

/-- `getVarChar` needs the length, what it claims and one byte more. -/
theorem getVarChar_inside_ne_none {columnValue : ColumnValue} :
    getVarChar Memory.inside columnValue ≠ none
      ↔ 2 + (claimedLength columnValue.value + 1) ≤ columnValue.value.length := by
  by_cases h : 2 ≤ columnValue.value.length
  · rw [getVarChar_of_getLength (getLength_inside h)]
    exact Memory.readFrom_inside_ne_none (Nat.succ_pos _)
  · have hnone : getVarChar Memory.inside columnValue = none := by
      unfold getVarChar
      rw [getLength_inside_eq_none (Nat.lt_of_not_le h)]
      rfl
    rw [hnone]
    exact iff_of_false (fun hne => hne rfl) (by omega)

/-- `getChar` copies what is there. -/
theorem getChar_of_readFrom {data : Bytes → Memory} {columnValue : ColumnValue}
    (h : (data columnValue.value).readFrom 0 columnValue.value.length
      = some columnValue.value) :
    getChar data columnValue = some (Buffer.filled columnValue.value 0) := by
  have hcopy : (Buffer.filled (List.replicate columnValue.value.length 0) 0).memcpy 0
        columnValue.value columnValue.value.length
      = some (Buffer.filled columnValue.value 0) := by
    unfold Buffer.memcpy
    rw [if_pos (Nat.le_refl _), List.take_length,
      Buffer.write_zero_filled (by rw [List.length_replicate]), List.drop_replicate,
      Nat.sub_self, List.replicate_zero, List.append_nil]
  show ((Buffer.alloc columnValue.value.length).memset 0 columnValue.value.length).bind
    (fun charValue => ((data columnValue.value).readFrom 0 columnValue.value.length).bind
      (fun bytes => charValue.memcpy 0 bytes columnValue.value.length)) = _
  rw [Buffer.memset_alloc, Option.bind_some, h, Option.bind_some, hcopy]

/-- **A getter reads inside the value exactly when the value has the size
its type asks for.** Only a `CHAR` can have any size. -/
theorem readsInside_iff (columnValue : ColumnValue) (type : ColumnType) :
    ReadsInside columnValue type
      ↔ requiredSize columnValue.value type ≤ columnValue.value.length := by
  unfold ReadsInside
  cases type with
  | char =>
    have hread : (Memory.inside columnValue.value).readFrom 0 columnValue.value.length
        = some columnValue.value := by
      rw [Memory.readFrom_inside (by rw [Nat.zero_add]), List.drop_zero, List.take_length]
    refine iff_of_true (Option.map_eq_none_iff.not.mpr ?_) (Nat.zero_le _)
    rw [getChar_of_readFrom hread]
    exact Option.some_ne_none _
  | varchar => exact Option.map_eq_none_iff.not.trans getVarChar_inside_ne_none
  | varbinary => exact Option.map_eq_none_iff.not.trans getVarChar_inside_ne_none
  | _ =>
    -- The other getters read a machine value of the width of the type.
    refine Option.map_eq_none_iff.not.trans (Option.map_eq_none_iff.not.trans ?_)
    exact deref_inside_ne_none (by decide)

/-- **An empty integer, and a well-formed `VARCHAR` of one character.** -/
theorem not_readsInside_short :
    ¬ ReadsInside ⟨ascii "i", some .int32, none, none, []⟩ .int32
    ∧ ¬ ReadsInside ⟨ascii "v", some .varchar, none, none, [1, 0, 97]⟩ .varchar := by
  decide

end ColumnsValueDecoder

/-! ## The round trip

Here a getter may read the NUL that a C++ string keeps behind its bytes, so
that reading one byte too many is no error of access but gives that NUL. -/

namespace ColumnsValueDecoder

variable {columnValue : ColumnValue}

/-- A machine value is read back from its bytes. -/
theorem deref_littleEndian {width n : Nat} (hvalue : columnValue.value = littleEndian width n)
    (hn : n < 256 ^ width) : deref Memory.terminated columnValue width = some n := by
  have hlength : (littleEndian width n).length = width := length_littleEndian width n
  have hread : (Memory.terminated (littleEndian width n)).readFrom 0 width
      = some (littleEndian width n) := by
    rw [Memory.readFrom_terminated (by omega), List.drop_zero,
      List.take_of_length_le hlength.le]
  unfold deref
  rw [hvalue, hread, Option.map_some, ofLittleEndian_littleEndian_of_lt hn]

/-- The length before the data is read as it was written. -/
theorem getLength_prefixed {data : Bytes} (hvalue : columnValue.value = ColumnData.prefixed data)
    (h : data.length < 65536) : getLength Memory.terminated columnValue = some data.length := by
  have hlength : ofLittleEndian (littleEndian 2 data.length) = data.length :=
    ofLittleEndian_littleEndian_of_lt h
  unfold getLength
  rw [hvalue]
  show some ((UInt8.ofNat data.length).toNat + (UInt8.ofNat (data.length / 256)).toNat <<< 8)
    = some data.length
  rw [Nat.shiftLeft_eq]
  refine congrArg some (Eq.trans ?_ hlength)
  show _ = (UInt8.ofNat data.length).toNat
    + 256 * ((UInt8.ofNat (data.length / 256)).toNat + 256 * 0)
  omega

/-- **What comes back of data behind its length**: the data, and the NUL
behind it. -/
theorem getVarChar_prefixed {data : Bytes} (hvalue : columnValue.value = ColumnData.prefixed data)
    (h : data.length < 65536) :
    getVarChar Memory.terminated columnValue = some (data ++ [0]) := by
  have hend : 2 + data.length = (ColumnData.prefixed data).length := by
    unfold ColumnData.prefixed
    rw [List.length_append, length_littleEndian]
  rw [getVarChar_of_getLength (getLength_prefixed hvalue h), hvalue,
    Memory.readFrom_terminated_succ hend]
  rfl

/-- A getter of fixed width, on the bytes of the number it is to find. -/
theorem map_deref {α : Type} (width n : Nat) (f : Nat → α) (g : α → DecodedValue)
    (hvalue : columnValue.value = littleEndian width n) (hn : n < 256 ^ width) :
    ((deref Memory.terminated columnValue width).map f).map g = some (g (f n)) := by
  rw [deref_littleEndian hvalue hn, Option.map_some, Option.map_some]

/-- **A value without a length of its own comes back** from its bytes. -/
theorem getter_of_bytes {data : ColumnData} (hvalue : columnValue.value = data.bytes)
    (h : ¬ data.IsVariable) :
    getter Memory.terminated columnValue data.type = some data.stored := by
  cases data with
  | bool value =>
    refine (map_deref 1 value.toNat (fun n => decide (n ≠ 0)) .bool hvalue ?_).trans ?_
    · cases value <;> decide
    · cases value <;> rfl
  | int32 value =>
    refine (map_deref 4 value.toUInt32.toNat (fun n => (UInt32.ofNat n).toInt32) .int32 hvalue
      value.toUInt32.toNat_lt).trans ?_
    rw [UInt32.ofNat_toNat]
    rfl
  | uint32 value =>
    refine (map_deref 4 value.toNat UInt32.ofNat .uint32 hvalue value.toNat_lt).trans ?_
    rw [UInt32.ofNat_toNat]
    rfl
  | int64 value =>
    refine (map_deref 8 value.toUInt64.toNat (fun n => (UInt64.ofNat n).toInt64) .int64 hvalue
      value.toUInt64.toNat_lt).trans ?_
    rw [UInt64.ofNat_toNat]
    rfl
  | uint64 value =>
    refine (map_deref 8 value.toNat UInt64.ofNat .uint64 hvalue value.toNat_lt).trans ?_
    rw [UInt64.ofNat_toNat]
    rfl
  | float bits =>
    refine (map_deref 4 bits.toNat UInt32.ofNat .float hvalue bits.toNat_lt).trans ?_
    rw [UInt32.ofNat_toNat]
    rfl
  | double bits =>
    refine (map_deref 8 bits.toNat UInt64.ofNat .double hvalue bits.toNat_lt).trans ?_
    rw [UInt64.ofNat_toNat]
    rfl
  | char value size =>
    have hread : (Memory.terminated columnValue.value).readFrom 0 columnValue.value.length
        = some columnValue.value := by
      rw [Memory.readFrom_terminated (by omega), List.drop_zero, List.take_length]
    show (getChar Memory.terminated columnValue).map DecodedValue.char = _
    rw [getChar_of_readFrom hread, hvalue]
    rfl
  | varchar value => exact absurd trivial h
  | varbinary value size => exact absurd trivial h

/-- A string is not its own with a NUL behind it. -/
theorem append_zero_ne (value : Bytes) : value ++ [0] ≠ value := by
  intro heq
  have := congrArg List.length heq
  rw [List.length_append, List.length_singleton] at this
  omega

/-- **A value with a length of its own does not come back** from its
bytes. -/
theorem getter_of_bytes_ne {data : ColumnData} (hvalue : columnValue.value = data.bytes)
    (hread : data.Readable) (hfits : data.Fits) (h : data.IsVariable) :
    getter Memory.terminated columnValue data.type ≠ some data.stored := by
  cases data with
  | varchar value =>
    show (getVarChar Memory.terminated columnValue).map DecodedValue.varchar
      ≠ some (DecodedValue.varchar value)
    rw [getVarChar_prefixed hvalue hfits, Option.map_some]
    intro heq
    exact append_zero_ne value (DecodedValue.varchar.inj (Option.some.inj heq))
  | varbinary value size =>
    have hlength : (value.take size).length < 65536 := by
      rw [List.length_take_of_le hread]
      exact hfits
    show (getVarChar Memory.terminated columnValue).map DecodedValue.varbinary
      ≠ some (DecodedValue.varbinary (value.take size))
    rw [getVarChar_prefixed hvalue hlength, Option.map_some]
    intro heq
    exact append_zero_ne (value.take size) (DecodedValue.varbinary.inj (Option.some.inj heq))
  | _ => exact h.elim

end ColumnsValueDecoder

/-- **The value of a call comes back** from the column that is there for it:
with the name, the type and the flags of the call, and through the getter of
the type. -/
def AddCall.ComesBack (call : AddCall) (column : ColumnValue) : Prop :=
  column.name = call.name ∧ column.type = some call.data.type
    ∧ column.primaryKey = some call.isPrimaryKey
    ∧ column.distributionKey = some call.isDistibutedKey
    ∧ ColumnsValueDecoder.getter Memory.terminated column call.data.type
      = some call.data.stored

/-- **The values of the calls come back**, from one column per call and in
order. -/
def RoundTrips (calls : List AddCall) : Prop :=
  ∃ builder, AddCall.addAll calls ⟨[]⟩ = some builder
    ∧ List.Forall₂ AddCall.ComesBack calls builder.getColumns

/-- **Calls whose values fit** add their columns, in order. -/
theorem AddCall.addAll_eq (calls : List AddCall) (builder : ColumnsValueBuilder)
    (h : ∀ call ∈ calls, call.data.Readable ∧ call.data.Fits) :
    addAll calls builder = some ⟨builder.columns ++ calls.map column⟩ := by
  induction calls generalizing builder with
  | nil =>
    rw [addAll, List.map_nil, List.append_nil]
  | cons call calls ih =>
    obtain ⟨hread, hfits⟩ := h call List.mem_cons_self
    rw [addAll, add_of_fits builder hread hfits, Option.bind_some,
      ih _ (fun c hc => h c (List.mem_cons_of_mem call hc)), List.append_assoc]
    rfl

/-- **The value of a call comes back exactly when it has no length of its
own.** -/
theorem AddCall.comesBack_column_iff {call : AddCall} (hread : call.data.Readable)
    (hfits : call.data.Fits) : call.ComesBack call.column ↔ ¬ call.data.IsVariable := by
  refine ⟨fun h hvar => ?_, fun hvar => ?_⟩
  · obtain ⟨-, -, -, -, hget⟩ := h
    exact ColumnsValueDecoder.getter_of_bytes_ne rfl hread hfits hvar hget
  · exact ⟨rfl, rfl, rfl, rfl, ColumnsValueDecoder.getter_of_bytes rfl hvar⟩

/-- Calls whose values fit round trip one by one. -/
theorem roundTrips_iff_comesBack {calls : List AddCall}
    (h : ∀ call ∈ calls, call.data.Readable ∧ call.data.Fits) :
    RoundTrips calls ↔ ∀ call ∈ calls, call.ComesBack call.column := by
  have hcolumns : List.Forall₂ AddCall.ComesBack calls (calls.map AddCall.column)
      ↔ ∀ call ∈ calls, call.ComesBack call.column := by
    rw [List.forall₂_map_right_iff, List.forall₂_same]
  unfold RoundTrips
  rw [AddCall.addAll_eq calls ⟨[]⟩ h]
  refine Iff.trans ⟨?_, fun hback => ⟨_, rfl, hback⟩⟩ hcolumns
  rintro ⟨builder, heq, hback⟩
  rw [← Option.some.inj heq] at hback
  exact hback

/-- **The round trip holds exactly of the calls without a variable length**:
a `VARCHAR` or a `VARBINARY` comes back with a NUL behind it. -/
theorem roundTrips_iff (calls : List AddCall)
    (h : ∀ call ∈ calls, call.data.Readable ∧ call.data.Fits) :
    RoundTrips calls ↔ ∀ call ∈ calls, ¬ call.data.IsVariable := by
  rw [roundTrips_iff_comesBack h]
  exact forall₂_congr fun call hcall =>
    AddCall.comesBack_column_iff (h call hcall).1 (h call hcall).2

/-- A number and a text, neither of a length of its own. -/
theorem roundTrips_int32_char :
    RoundTrips [⟨ascii "i", .int32 (-1), true, true⟩,
      ⟨ascii "c", .char (ascii "a") 3, false, false⟩] :=
  (roundTrips_iff [⟨ascii "i", .int32 (-1), true, true⟩,
    ⟨ascii "c", .char (ascii "a") 3, false, false⟩] (by decide)).mpr (by decide)

/-- **One character comes back as two bytes.** -/
theorem not_roundTrips_varchar :
    ¬ RoundTrips [⟨ascii "v", .varchar (ascii "a"), false, false⟩] := by
  intro h
  have hback := (roundTrips_iff_comesBack (by decide)).mp h _ List.mem_cons_self
  exact (AddCall.comesBack_column_iff (by decide) (by decide)).mp hback trivial

end VoloDB
