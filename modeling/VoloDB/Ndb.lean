import VoloDB.Interaction
import VoloDB.Frame

/-!
# What an executor calls

An executor thread reaches four things outside itself: the MySQL server,
which runs definition queries; the NDB API, which runs the transactions of
manipulation operations; the cache of table descriptions, which all
executors share; and the socket its replies go out on. `Call` lists these
calls with their arguments and `Answer` the answers, about which nothing is
assumed here.

An NDB object is known to the program by its pointer, a number that the
call which creates the object answers with. An operation is filled in by a
series of calls, and `NdbOperation` keeps next to the pointer what it has
been told so far.
-/

namespace VoloDB

open Interaction

/-! ## Tables -/

/-- `NdbDictionary::Column`. -/
structure TableColumn where
  name : Bytes
  primaryKey : Bool
deriving DecidableEq, Repr

/-- **`NdbDictionary::Table`**: the description of a table. A table has a
primary key, and its columns have different names. -/
structure Table where
  columns : List TableColumn
  /-- Tables of one name that existed at different times differ in this. -/
  version : Nat
  primaryKey_pos : 0 < columns.countP (·.primaryKey)
  names_nodup : (columns.map (·.name)).Nodup
deriving DecidableEq

namespace Table

/-- `getNoOfColumns`. -/
def getNoOfColumns (table : Table) : Nat := table.columns.length

/-- `getNoOfPrimaryKeys`. -/
def getNoOfPrimaryKeys (table : Table) : Nat := table.columns.countP (·.primaryKey)

/-- `getColumn` by name, as the number of the column. There is none for a
name the table does not have. -/
def getColumn (table : Table) (name : Bytes) : Option Nat :=
  table.columns.findIdx? (fun column => column.name = name)

theorem getNoOfPrimaryKeys_pos (table : Table) : 0 < table.getNoOfPrimaryKeys :=
  table.primaryKey_pos

end Table

/-! ## Operations and transactions -/

/-- What calls that can fail return: 0, or -1. -/
inductive ReturnCode where
  | ok | failed
deriving DecidableEq, Repr

/-- What an operation has been defined to do. -/
inductive Access where
  | writeTuple | deleteTuple | simpleRead
  /-- `readTuples` of the index of this name. -/
  | indexScan (indexName : Bytes)
  /-- `readTuples` of the whole table. -/
  | scan
deriving DecidableEq, Repr

/-- Whether the operation is an `NdbScanOperation`. -/
def Access.isScan : Access → Bool
  | .indexScan _ | .scan => true
  | .writeTuple | .deleteTuple | .simpleRead => false

/-- **An operation of a transaction**: its pointer, and what it has been
told. -/
structure NdbOperation where
  pointer : Nat
  storeName : Bytes
  access : Access
  /-- The columns and values given to `equal`, in order. -/
  equals : List (Bytes × Bytes)
  /-- The columns and values given to `setValue`, in order. -/
  values : List (Bytes × Bytes)
  /-- The column numbers and values given to `cmp` of the scan filter. -/
  filter : List (Nat × Bytes)
deriving DecidableEq, Repr

/-- An operation just defined. -/
def NdbOperation.new (pointer : Nat) (storeName : Bytes) (access : Access) :
    NdbOperation :=
  ⟨pointer, storeName, access, [], [], []⟩

/-- `NdbRecAttr*`: where the value of a column is put when a row is read. -/
abbrev RecAttr := Nat

/-- What a column record holds: the column's name, its type as far as it is
one the protocol knows, and the bytes of the value. -/
structure ColumnRecord where
  name : Bytes
  type : Option ColumnType
  value : Bytes
deriving DecidableEq, Repr

/-- The contents of the column records, when a row has been read. -/
abbrev Snapshot := RecAttr → ColumnRecord

/-- What `nextResult` returns when it does not return a row. -/
inductive CursorEnd where
  /-- 1: there are no more rows. -/
  | endOfData
  /-- -1. -/
  | failed
deriving DecidableEq, Repr

/-- **The answers of `nextResult`**, up to the first that is not a row. -/
structure Cursor where
  rows : List Snapshot
  ending : CursorEnd

/-- `NdbError`. -/
structure NdbError where
  code : Int32
  message : Bytes
deriving DecidableEq

/-- An element of a transaction's list of operations. -/
structure OperationState where
  type : FrameItemType
  operation : NdbOperation
  /-- The records of a `GET`; the other operations have none. -/
  columnValues : List RecAttr
deriving DecidableEq, Repr

/-- **`NdbTransactionState`**: what the callback of a transaction is
given. -/
structure NdbTransactionState where
  /-- The pointer to the transaction. -/
  transaction : Nat
  transactionID : Bytes
  identifier : Bytes
  operations : List OperationState
deriving DecidableEq, Repr

/-- `Ndb::Key_part_ptr`: a pointer to bytes with their length, or the null
pointer that ends a list. -/
inductive KeyPart where
  | value (v : Bytes)
  | terminator
deriving DecidableEq, Repr

/-! ## Calls and answers -/

/-- **The calls of an executor.** -/
inductive Call where
  /-- `mysql_query`. -/
  | query (text : Bytes)
  /-- `TableInfoCache::get`, under the shared lock. -/
  | cacheGet (storeName : Bytes)
  /-- The dictionary lookup of `TableInfoCache::set`. -/
  | getTable (storeName : Bytes)
  /-- The insertion of `TableInfoCache::set`, under the unique lock. -/
  | cacheInsert (storeName : Bytes) (table : Table)
  /-- `TableInfoCache::invalidate`, under the unique lock. -/
  | cacheErase (storeName : Bytes)
  | startTransaction (table : Table) (hint : List (Option KeyPart))
  | getNdbOperation (transaction : Nat) (storeName : Bytes)
  | getNdbIndexScanOperation (transaction : Nat) (indexName storeName : Bytes)
  | getNdbScanOperation (transaction : Nat) (storeName : Bytes)
  /-- `writeTuple`, `deleteTuple`, `simpleRead` or `readTuples`, whose
  results the program does not look at. -/
  | define (operation : Nat) (access : Access)
  | equal (operation : Nat) (name value : Bytes)
  | setValue (operation : Nat) (name value : Bytes)
  /-- `begin`, `cmp` and `end` of an operation's `NdbScanFilter`. -/
  | filterBegin (operation : Nat)
  | filterCmp (operation : Nat) (columnNo : Nat) (value : Bytes)
  | filterEnd (operation : Nat)
  | getValue (operation : Nat) (columnNo : Nat)
  | getNdbError (transaction : Nat)
  | close (transaction : Nat)
  | executeAsynchPrepare (state : NdbTransactionState)
  /-- `sendPollNdb` and the calls of `pollNdb` after it. -/
  | pollNdb (totalTransactions : Nat)
  /-- The callback of a prepared transaction is entered. -/
  | callback (state : NdbTransactionState)
  /-- The records of a row that was read by its key. -/
  | records (operation : Nat)
  /-- The calls of `nextResult` on a scan. -/
  | nextResult (operation : Nat)
  /-- A reply: the identity of a client and the bytes of a frame, sent as
  one message of two parts. -/
  | send (identifier bytes : Bytes)
  /-- No call of the source: it marks in a run where a tuple is taken from
  the list of its message. -/
  | take (messagesTuple : FrameMessagesTuple)

/-- **What the calls answer.** -/
abbrev Answer : Call → Type
  | .query _ => Option Bytes -- the text of the error, if there is one
  | .cacheGet _ => Option Table
  | .getTable _ => Option Table
  | .cacheInsert _ _ => Unit
  | .cacheErase _ => Unit
  | .startTransaction _ _ => Option Nat
  | .getNdbOperation _ _ => Option Nat
  | .getNdbIndexScanOperation _ _ _ => Option Nat
  | .getNdbScanOperation _ _ => Option Nat
  | .define _ _ => Unit
  | .equal _ _ _ => ReturnCode
  | .setValue _ _ _ => ReturnCode
  | .filterBegin _ => ReturnCode
  | .filterCmp _ _ _ => ReturnCode
  | .filterEnd _ => ReturnCode
  | .getValue _ _ => Option RecAttr
  | .getNdbError _ => NdbError
  | .close _ => Unit
  | .executeAsynchPrepare _ => Unit
  | .pollNdb _ => List (List Nat) -- for each poll, the transactions completed
  | .callback _ => ReturnCode -- whether the commit succeeded
  | .records _ => Snapshot
  | .nextResult _ => Cursor
  | .send _ _ => Unit
  | .take _ => Unit

/-- The ways an executor can leave the defined behaviour of its program. -/
inductive Fault where
  /-- `store_info(0)` of an operation that names no store. -/
  | storeInfo
  /-- A method called through the null pointer `getColumn` returned. -/
  | nullColumn
  /-- A key part written past the end of the array for it. -/
  | keyPart
  /-- `set_type` of a column value with a type that is none of `Column.Type`: an
  assertion of the generated code. -/
  | columnType
  /-- The polls have not brought the wait to its end. -/
  | waiting
deriving DecidableEq, Repr

/-- A program of an executor. -/
abbrev Exec := Prog Call Answer Fault

/-- Make a call. -/
abbrev perform (c : Call) : Exec (Answer c) := Prog.perform c

/-- A run of an executor, call by call. -/
abbrev Trace := List (Event Answer)

/-! ## Kinds of calls -/

/-- Calls that neither change what is stored nor reach a client: the
lookups, and everything that goes into an operation before its transaction
is handed over. -/
def Call.isPreparation : Call → Bool
  | .query _ | .cacheErase _ | .executeAsynchPrepare _ | .pollNdb _ | .callback _
  | .send _ _ | .take _ => false
  | _ => true

/-- Calls about the operations of a transaction: preparations that ask
neither the cache nor the dictionary. -/
def Call.isOperation : Call → Bool
  | .cacheGet _ | .getTable _ | .cacheInsert _ _ => false
  | c => c.isPreparation

/-- Calls that tell an operation something. -/
def Call.isFilling : Call → Bool
  | .define _ _ | .equal _ _ _ | .setValue _ _ _ | .filterBegin _ | .filterCmp _ _ _
  | .filterEnd _ => true
  | _ => false

/-- Calls that make an operation of a transaction, or go into one. -/
def Call.isBuilding : Call → Bool
  | .getNdbOperation _ _ | .getNdbIndexScanOperation _ _ _ | .getNdbScanOperation _ _
  | .getValue _ _ => true
  | c => c.isFilling

/-- Calls that look a table up. -/
def Call.isLookup : Call → Bool
  | .cacheGet _ | .getTable _ | .cacheInsert _ _ => true
  | _ => false

/-- The calls of a manipulation operation inside an open transaction. -/
def Call.isAdding (c : Call) : Bool := c.isLookup || c.isBuilding

/-- Calls of a definition operation. -/
def Call.isDefinition : Call → Bool
  | .query _ | .cacheErase _ => true
  | _ => false

/-- Calls that read the results of a committed transaction. -/
def Call.isReading : Call → Bool
  | .records _ | .nextResult _ => true
  | _ => false

theorem Call.isBuilding_of_isFilling {c : Call} (h : c.isFilling = true) :
    c.isBuilding = true := by
  cases c <;> first | rfl | exact absurd h Bool.false_ne_true

theorem Call.isAdding_of_isLookup {c : Call} (h : c.isLookup = true) : c.isAdding = true := by
  unfold isAdding
  rw [h, Bool.true_or]

theorem Call.isAdding_of_isBuilding {c : Call} (h : c.isBuilding = true) :
    c.isAdding = true := by
  unfold isAdding
  rw [h, Bool.or_true]

theorem Call.isOperation_of_isBuilding {c : Call} (h : c.isBuilding = true) :
    c.isOperation = true := by
  cases c <;> first | rfl | exact absurd h Bool.false_ne_true

theorem Call.isOperation_of_isReading {c : Call} (h : c.isReading = true) :
    c.isOperation = true := by
  cases c <;> first | rfl | exact absurd h Bool.false_ne_true

theorem Call.isPreparation_of_isLookup {c : Call} (h : c.isLookup = true) :
    c.isPreparation = true := by
  cases c <;> first | rfl | exact absurd h Bool.false_ne_true

theorem Call.isPreparation_of_isOperation {c : Call} (h : c.isOperation = true) :
    c.isPreparation = true := by
  cases c <;> first | rfl | exact absurd h Bool.false_ne_true

/-- The reply of an event, where it is one. -/
def replyOf : Event Answer → Option (Bytes × Bytes)
  | ⟨.send identifier bytes, _⟩ => some (identifier, bytes)
  | _ => none

/-- **The replies of a run**, in order. -/
def replies (trace : Trace) : List (Bytes × Bytes) := trace.filterMap replyOf

@[simp] theorem replies_append (trace rest : Trace) :
    replies (trace ++ rest) = replies trace ++ replies rest :=
  List.filterMap_append

theorem replies_cons_of_none {e : Event Answer} (h : replyOf e = none) (trace : Trace) :
    replies (e :: trace) = replies trace :=
  List.filterMap_cons_none h

theorem replyOf_of_isPreparation {e : Event Answer} (h : e.1.isPreparation = true) :
    replyOf e = none := by
  obtain ⟨c, r⟩ := e
  cases c with
  | send identifier bytes => exact absurd h Bool.false_ne_true
  | _ => rfl

theorem replies_of_isPreparation {trace : Trace}
    (h : ∀ e ∈ trace, e.1.isPreparation = true) : replies trace = [] :=
  List.filterMap_eq_nil_iff.mpr (fun e he => replyOf_of_isPreparation (h e he))

end VoloDB
