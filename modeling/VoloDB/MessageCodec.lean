import VoloDB.Messages

/-!
# The messages on the wire

The fields of each message, by the numbers the definitions give them, and
the reading of each message from its fields. A number the definition does
not know is passed over; of an optional or required field the last
occurrence counts; an enumeration value outside the enumeration is passed
over like an unknown field; and a message is refused exactly where a
required field, its own or that of a message inside it, is missing.

`wireFormat` is the family of coders the generated classes amount to.
-/

namespace VoloDB

open Wire

/-! ## Single values -/

/-- The number a truth value travels as. -/
def boolToNat (b : Bool) : Nat := if b then 1 else 0

/-- A truth value is false exactly at zero. -/
def boolOfNat (n : Nat) : Bool := n ≠ 0

@[simp] theorem boolOfNat_boolToNat (b : Bool) : boolOfNat (boolToNat b) = b := by
  cases b <;> rfl

/-- An `int32` travels as its sign extension to 64 bits. -/
def int32ToNat (i : Int32) : Nat := i.toInt64.toUInt64.toNat

/-- An `int32` is read from the low bits of its 64. -/
def int32OfNat (n : Nat) : Int32 := (UInt64.ofNat n).toInt64.toInt32

@[simp] theorem int32OfNat_int32ToNat (i : Int32) : int32OfNat (int32ToNat i) = i := by
  rw [int32OfNat, int32ToNat, UInt64.ofNat_toNat, Int64.toInt64_toUInt64,
    Int32.toInt32_toInt64]

/-- The last string of a field. -/
def lastBytes (k : Nat) (fs : List Field) : Option Bytes := (bytesOf k fs).getLast?

/-- The last truth value of a field. -/
def lastBool (k : Nat) (fs : List Field) : Option Bool :=
  (varintsOf k fs).getLast?.map boolOfNat

/-- The last `int32` of a field. -/
def lastInt32 (k : Nat) (fs : List Field) : Option Int32 :=
  (varintsOf k fs).getLast?.map int32OfNat

/-- The last value of a field that the enumeration knows. -/
def lastEnum {α : Type} (ofNat? : Nat → Option α) (k : Nat) (fs : List Field) :
    Option α :=
  ((varintsOf k fs).filterMap ofNat?).getLast?

@[simp] theorem boolOfNat_comp_boolToNat : boolOfNat ∘ boolToNat = id :=
  funext boolOfNat_boolToNat

@[simp] theorem int32OfNat_comp_int32ToNat : int32OfNat ∘ int32ToNat = id :=
  funext int32OfNat_int32ToNat

/-! ## The coders -/

/-- `StoreInfo`: the name is field 2. -/
def storeInfoCoder : Coder StoreInfo :=
  Coder.ofFields (fun s => [⟨2, .bytes s.storeName⟩])
    (fun fs => (lastBytes 2 fs).map StoreInfo.mk)
    (by simp) (by simp [lastBytes])

/-- `ColumnInfo`. -/
def columnInfoCoder : Coder ColumnInfo :=
  Coder.ofFields
    (fun c => [⟨1, .bytes c.name⟩, ⟨2, .varint c.type.toNat⟩]
      ++ optionalVarint 3 boolToNat c.primaryKey
      ++ optionalVarint 4 boolToNat c.distributionKey
      ++ optionalVarint 6 int32ToNat c.length)
    (fun fs =>
      (lastBytes 1 fs).bind (fun name =>
        (lastEnum ColumnType.ofNat? 2 fs).map (fun type =>
          ⟨name, type, lastBool 3 fs, lastBool 4 fs, lastInt32 6 fs⟩)))
    (by
      intro c f hf
      simp only [List.mem_append, List.mem_cons, List.not_mem_nil, or_false] at hf
      rcases hf with (((rfl | rfl) | h) | h) | h
      · exact Nat.one_pos
      · exact Nat.two_pos
      all_goals (rw [number_of_mem_optionalVarint h]; omega))
    (by
      intro c
      simp [lastBytes, lastEnum, lastBool, lastInt32])

/-- `ColumnValue`. -/
def columnValueCoder : Coder ColumnValue :=
  Coder.ofFields
    (fun c => [⟨1, .bytes c.name⟩]
      ++ optionalVarint 2 ColumnType.toNat c.type
      ++ optionalVarint 3 boolToNat c.primaryKey
      ++ optionalVarint 4 boolToNat c.distributionKey
      ++ [⟨5, .bytes c.value⟩])
    (fun fs =>
      (lastBytes 1 fs).bind (fun name =>
        (lastBytes 5 fs).map (fun value =>
          ⟨name, lastEnum ColumnType.ofNat? 2 fs, lastBool 3 fs, lastBool 4 fs, value⟩)))
    (by
      intro c f hf
      simp only [List.mem_append, List.mem_singleton] at hf
      rcases hf with (((rfl | h) | h) | h) | rfl
      · exact Nat.one_pos
      · rw [number_of_mem_optionalVarint h]; omega
      · rw [number_of_mem_optionalVarint h]; omega
      · rw [number_of_mem_optionalVarint h]; omega
      · exact Nat.succ_pos 4)
    (by
      intro c
      simp [lastBytes, lastEnum, lastBool])

/-- `CreateDatabaseOperation`. -/
def createDatabaseCoder : Coder CreateDatabaseOperation :=
  Coder.ofFields (fun o => [⟨1, .bytes o.databaseName⟩])
    (fun fs => (lastBytes 1 fs).map CreateDatabaseOperation.mk)
    (by simp) (by simp [lastBytes])

/-- `DropDatabaseOperation`. -/
def dropDatabaseCoder : Coder DropDatabaseOperation :=
  Coder.ofFields (fun o => [⟨1, .bytes o.databaseName⟩])
    (fun fs => (lastBytes 1 fs).map DropDatabaseOperation.mk)
    (by simp) (by simp [lastBytes])

/-- `CreateStoreOperation`. -/
def createStoreCoder : Coder CreateStoreOperation :=
  Coder.ofFields
    (fun o => ⟨1, .bytes (storeInfoCoder.serialize o.storeInfo)⟩
      :: repeated 2 columnInfoCoder.serialize o.column)
    (fun fs =>
      (storeInfoCoder.parseMerged (bytesOf 1 fs)).bind (fun storeInfo =>
        (columnInfoCoder.parseAll (bytesOf 2 fs)).map (fun column =>
          ⟨storeInfo, column⟩)))
    (by
      intro o f hf
      rcases List.mem_cons.mp hf with rfl | h
      · exact Nat.one_pos
      · rw [number_of_mem_repeated h]; omega)
    (by intro o; simp)

/-- `DropStoreOperation`. -/
def dropStoreCoder : Coder DropStoreOperation :=
  Coder.ofFields
    (fun o => [⟨1, .bytes (storeInfoCoder.serialize o.storeInfo)⟩])
    (fun fs => (storeInfoCoder.parseMerged (bytesOf 1 fs)).map DropStoreOperation.mk)
    (by simp) (by simp)

/-- The fields `SetOperation`, `DeleteOperation` and `GetOperation` share:
the stores, the key columns, and the value columns where there are any. -/
def manipulationFields (storeInfo : List StoreInfo) (primaryKey value : List ColumnValue) :
    List Field :=
  repeated 1 storeInfoCoder.serialize storeInfo
    ++ repeated 2 columnValueCoder.serialize primaryKey
    ++ repeated 3 columnValueCoder.serialize value

theorem manipulationFields_pos (storeInfo : List StoreInfo)
    (primaryKey value : List ColumnValue) :
    ∀ f ∈ manipulationFields storeInfo primaryKey value, 0 < f.number := by
  intro f hf
  simp only [manipulationFields, List.mem_append] at hf
  rcases hf with (h | h) | h
  all_goals (rw [number_of_mem_repeated h]; omega)

/-- `SetOperation`. -/
def setCoder : Coder SetOperation :=
  Coder.ofFields (fun o => manipulationFields o.storeInfo o.primaryKey o.value)
    (fun fs =>
      (storeInfoCoder.parseAll (bytesOf 1 fs)).bind (fun storeInfo =>
        (columnValueCoder.parseAll (bytesOf 2 fs)).bind (fun primaryKey =>
          (columnValueCoder.parseAll (bytesOf 3 fs)).map (fun value =>
            ⟨storeInfo, primaryKey, value⟩))))
    (fun _ => manipulationFields_pos _ _ _)
    (by intro o; simp [manipulationFields])

/-- `DeleteOperation`, which has no value columns. -/
def deleteCoder : Coder DeleteOperation :=
  Coder.ofFields (fun o => manipulationFields o.storeInfo o.primaryKey [])
    (fun fs =>
      (storeInfoCoder.parseAll (bytesOf 1 fs)).bind (fun storeInfo =>
        (columnValueCoder.parseAll (bytesOf 2 fs)).map (fun primaryKey =>
          ⟨storeInfo, primaryKey⟩)))
    (fun _ => manipulationFields_pos _ _ _)
    (by intro o; simp [manipulationFields])

/-- `GetOperation`. -/
def getCoder : Coder GetOperation :=
  Coder.ofFields (fun o => manipulationFields o.storeInfo o.primaryKey o.value)
    (fun fs =>
      (storeInfoCoder.parseAll (bytesOf 1 fs)).bind (fun storeInfo =>
        (columnValueCoder.parseAll (bytesOf 2 fs)).bind (fun primaryKey =>
          (columnValueCoder.parseAll (bytesOf 3 fs)).map (fun value =>
            ⟨storeInfo, primaryKey, value⟩))))
    (fun _ => manipulationFields_pos _ _ _)
    (by intro o; simp [manipulationFields])

/-- `Row`. -/
def rowCoder : Coder Row :=
  Coder.ofFields (fun r => repeated 1 columnValueCoder.serialize r.column)
    (fun fs => (columnValueCoder.parseAll (bytesOf 1 fs)).map Row.mk)
    (by intro r f hf; rw [number_of_mem_repeated hf]; exact Nat.one_pos)
    (by intro r; simp)

/-- `OperationResult`. -/
def operationResultCoder : Coder OperationResult :=
  Coder.ofFields
    (fun o => repeated 1 rowCoder.serialize o.row ++ [⟨2, .varint o.type.toNat⟩])
    (fun fs =>
      (rowCoder.parseAll (bytesOf 1 fs)).bind (fun row =>
        (lastEnum FrameItemType.ofNat? 2 fs).map (fun type => ⟨row, type⟩)))
    (by
      intro o f hf
      rcases List.mem_append.mp hf with h | h
      · rw [number_of_mem_repeated h]; exact Nat.one_pos
      · rw [List.mem_singleton.mp h]; exact Nat.two_pos)
    (by intro o; simp [lastEnum])

/-- `Result`. -/
def resultCoder : Coder Result :=
  Coder.ofFields
    (fun r => ⟨1, .bytes r.transactionIdentifier⟩
      :: (repeated 2 operationResultCoder.serialize r.result
        ++ optionalVarint 3 int32ToNat r.errorCode
        ++ optionalBytes 4 r.errorDescription))
    (fun fs =>
      (lastBytes 1 fs).bind (fun transactionIdentifier =>
        (operationResultCoder.parseAll (bytesOf 2 fs)).map (fun result =>
          ⟨transactionIdentifier, result, lastInt32 3 fs, lastBytes 4 fs⟩)))
    (by
      intro r f hf
      simp only [List.mem_cons, List.mem_append] at hf
      rcases hf with rfl | (h | h) | h
      · exact Nat.one_pos
      · rw [number_of_mem_repeated h]; omega
      · rw [number_of_mem_optionalVarint h]; omega
      · rw [number_of_mem_optionalBytes h]; omega)
    (by intro r; simp [lastBytes, lastInt32])

/-- `FrameItem`. -/
def frameItemCoder : Coder FrameItem :=
  Coder.ofFields
    (fun i => [⟨1, .varint i.type.toNat⟩, ⟨2, .bytes i.data⟩]
      ++ optionalBytes 3 i.identifier)
    (fun fs =>
      (lastEnum FrameItemType.ofNat? 1 fs).bind (fun type =>
        (lastBytes 2 fs).map (fun data => ⟨type, data, lastBytes 3 fs⟩)))
    (by
      intro i f hf
      simp only [List.mem_append, List.mem_cons, List.not_mem_nil, or_false] at hf
      rcases hf with (rfl | rfl) | h
      · exact Nat.one_pos
      · exact Nat.two_pos
      · rw [number_of_mem_optionalBytes h]; omega)
    (by intro i; simp [lastBytes, lastEnum])

/-- `Frame`. -/
def frameCoder : Coder Frame :=
  Coder.ofFields
    (fun f => optionalBytes 1 f.identifier
      ++ repeated 2 frameItemCoder.serialize f.item)
    (fun fs => (frameItemCoder.parseAll (bytesOf 2 fs)).map (fun item =>
      ⟨lastBytes 1 fs, item⟩))
    (by
      intro g f hf
      rcases List.mem_append.mp hf with h | h
      · rw [number_of_mem_optionalBytes h]; exact Nat.one_pos
      · rw [number_of_mem_repeated h]; omega)
    (by intro f; simp [lastBytes])

/-- **The coders of the wire format.** -/
def wireFormat : Protobuf where
  createDatabase := createDatabaseCoder
  dropDatabase := dropDatabaseCoder
  createStore := createStoreCoder
  dropStore := dropStoreCoder
  set := setCoder
  delete := deleteCoder
  get := getCoder
  result := resultCoder
  frame := frameCoder

/-- The bytes of a frame with one item: the identifier is field 1 of the
frame, the item field 2, and inside it the type tag and the payload. -/
example : wireFormat.frame.serialize ⟨some [116], [⟨.set, [1, 2], none⟩]⟩
    = [10, 1, 116, 18, 6, 8, 6, 18, 2, 1, 2] := by decide

/-- An empty payload is a `SetOperation` without a store. -/
example : wireFormat.set.parse [] = some ⟨[], [], []⟩ := by decide

end VoloDB
