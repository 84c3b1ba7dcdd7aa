import VoloDB.WireFormat

/-!
# The messages of the protocol

The types of the protocol buffer definitions, under the names of their
fields. A `required` field is a field, an `optional` one an `Option`, a
`repeated` one a `List`, so that a value of one of these types *is* an
initialized message. A `string` and a `bytes` field both hold whatever
bytes were put into them: version 2 of the language does not reject a
string for its encoding.

`Message` is what the C++ code handles as a `google::protobuf::Message`:
one of the eight messages a frame can carry, or some other message of
which only the type name matters.
-/

namespace VoloDB

/-- `Column.Type`: the types of a column, mapped to values of the NDB type
enumeration. -/
inductive ColumnType where
  | bool | int32 | uint32 | int64 | uint64 | float | double | char | varchar
  | varbinary
deriving DecidableEq, Repr

/-- `FrameItem.Type`: what the payload of a frame item is. -/
inductive FrameItemType where
  | none | createDatabase | dropDatabase | createStore | dropStore | set | get
  | delete | serverResponse
deriving DecidableEq, Repr

/-- `StoreInfo`. -/
structure StoreInfo where
  storeName : Bytes
deriving DecidableEq, Repr

/-- `ColumnInfo`: a column of a store to be created. -/
structure ColumnInfo where
  name : Bytes
  type : ColumnType
  primaryKey : Option Bool
  distributionKey : Option Bool
  length : Option Int32
deriving DecidableEq

/-- `ColumnValue`: a column of a row, or of a condition on rows. -/
structure ColumnValue where
  name : Bytes
  type : Option ColumnType
  primaryKey : Option Bool
  distributionKey : Option Bool
  value : Bytes
deriving DecidableEq, Repr

/-- `CreateDatabaseOperation`. -/
structure CreateDatabaseOperation where
  databaseName : Bytes
deriving DecidableEq, Repr

/-- `DropDatabaseOperation`. -/
structure DropDatabaseOperation where
  databaseName : Bytes
deriving DecidableEq, Repr

/-- `CreateStoreOperation`. -/
structure CreateStoreOperation where
  storeInfo : StoreInfo
  column : List ColumnInfo
deriving DecidableEq

/-- `DropStoreOperation`. -/
structure DropStoreOperation where
  storeInfo : StoreInfo
deriving DecidableEq, Repr

/-- `SetOperation`. The store is a repeated field, so it may be missing. -/
structure SetOperation where
  storeInfo : List StoreInfo
  primaryKey : List ColumnValue
  value : List ColumnValue
deriving DecidableEq, Repr

/-- `DeleteOperation`. -/
structure DeleteOperation where
  storeInfo : List StoreInfo
  primaryKey : List ColumnValue
deriving DecidableEq, Repr

/-- `GetOperation`. -/
structure GetOperation where
  storeInfo : List StoreInfo
  primaryKey : List ColumnValue
  value : List ColumnValue
deriving DecidableEq, Repr

/-- `Row`. -/
structure Row where
  column : List ColumnValue
deriving DecidableEq, Repr

/-- `OperationResult`: the rows one operation read. -/
structure OperationResult where
  row : List Row
  type : FrameItemType
deriving DecidableEq, Repr

/-- `Result`: the answer to one transaction. -/
structure Result where
  transactionIdentifier : Bytes
  result : List OperationResult
  errorCode : Option Int32
  errorDescription : Option Bytes
deriving DecidableEq

/-- `FrameItem`. -/
structure FrameItem where
  type : FrameItemType
  data : Bytes
  identifier : Option Bytes
deriving DecidableEq, Repr

/-- `Frame`. -/
structure Frame where
  identifier : Option Bytes
  item : List FrameItem
deriving DecidableEq, Repr

/-- A message of any type. -/
inductive Message where
  | createDatabase (operation : CreateDatabaseOperation)
  | dropDatabase (operation : DropDatabaseOperation)
  | createStore (operation : CreateStoreOperation)
  | dropStore (operation : DropStoreOperation)
  | set (operation : SetOperation)
  | delete (operation : DeleteOperation)
  | get (operation : GetOperation)
  | result (response : Result)
  /-- A message of another type, known by the name of its type. -/
  | other (typeName : Bytes)
deriving DecidableEq

/-! ## The enumerations on the wire -/

/-- The number of a column type. -/
def ColumnType.toNat : ColumnType → Nat
  | .bool => 1
  | .int32 => 7
  | .uint32 => 8
  | .int64 => 9
  | .uint64 => 10
  | .float => 11
  | .double => 12
  | .char => 14
  | .varchar => 23
  | .varbinary => 24

/-- The column type of a number; a number that is none of the enumeration
is not read. -/
def ColumnType.ofNat? : Nat → Option ColumnType
  | 1 => some .bool
  | 7 => some .int32
  | 8 => some .uint32
  | 9 => some .int64
  | 10 => some .uint64
  | 11 => some .float
  | 12 => some .double
  | 14 => some .char
  | 23 => some .varchar
  | 24 => some .varbinary
  | _ => none

@[simp] theorem ColumnType.ofNat?_toNat (t : ColumnType) :
    ColumnType.ofNat? t.toNat = some t := by
  cases t <;> rfl

/-- The number of a frame item type. -/
def FrameItemType.toNat : FrameItemType → Nat
  | .none => 1
  | .createDatabase => 2
  | .dropDatabase => 3
  | .createStore => 4
  | .dropStore => 5
  | .set => 6
  | .get => 7
  | .delete => 8
  | .serverResponse => 9

/-- The frame item type of a number. -/
def FrameItemType.ofNat? : Nat → Option FrameItemType
  | 1 => some .none
  | 2 => some .createDatabase
  | 3 => some .dropDatabase
  | 4 => some .createStore
  | 5 => some .dropStore
  | 6 => some .set
  | 7 => some .get
  | 8 => some .delete
  | 9 => some .serverResponse
  | _ => .none

@[simp] theorem FrameItemType.ofNat?_toNat (t : FrameItemType) :
    FrameItemType.ofNat? t.toNat = some t := by
  cases t <;> rfl

/-! ## The parsers and writers of the messages -/

/-- **What the generated message classes provide**: a coder for each type
the program writes or reads. Everything said about frames below holds for
every such family; `MessageCodec` builds the one of the wire format. -/
structure Protobuf where
  createDatabase : Coder CreateDatabaseOperation
  dropDatabase : Coder DropDatabaseOperation
  createStore : Coder CreateStoreOperation
  dropStore : Coder DropStoreOperation
  set : Coder SetOperation
  delete : Coder DeleteOperation
  get : Coder GetOperation
  result : Coder Result
  frame : Coder Frame

/-- `message.SerializeToString`, by the type of the message. A message of
another type has no bytes here: no frame is ever built around one. -/
def Message.serialize (P : Protobuf) : Message → Bytes
  | .createDatabase operation => P.createDatabase.serialize operation
  | .dropDatabase operation => P.dropDatabase.serialize operation
  | .createStore operation => P.createStore.serialize operation
  | .dropStore operation => P.dropStore.serialize operation
  | .set operation => P.set.serialize operation
  | .delete operation => P.delete.serialize operation
  | .get operation => P.get.serialize operation
  | .result response => P.result.serialize response
  | .other _ => []

end VoloDB
