import VoloDB.NDBMessageProcessor

/-!
# Executing a tuple

`NDBMessageExecutor` runs the messages of a tuple one after the other. A
definition operation becomes a query, which MySQL runs at once, and is
answered at once. A manipulation operation becomes an operation of an NDB
transaction, which the first of them starts; when the loop ends, the
transaction is handed over to be committed, and it is answered from the
callback that NDB runs when this is done. An operation that cannot be added
ends the loop: the transaction is closed and the failure answered.

The functions below are those of the source, statement by statement, as
programs that make the calls of `VoloDB.Ndb`. What returns a pointer to an
operation or null there returns an `Option` here; what returns 0 or -1
after having told an operation something returns the operation with what
it has been told, or none.
-/

namespace VoloDB

open Interaction FrameUtils NDBMessageProcessor

/-! ## The cache of table descriptions -/

namespace TableInfoCache

/-- `TableInfoCache::get`. -/
def get (storeName : Bytes) : Exec (Option Table) := perform (.cacheGet storeName)

/-- `TableInfoCache::_getInternal`: the table the dictionary has under the
name as a C string. -/
def getInternal (fullStoreName : Bytes) : Exec (Option Table) :=
  perform (.getTable (cStr fullStoreName))

/-- `TableInfoCache::set`. -/
def set (storeName : Bytes) : Exec (Option Table) := do
  let newTableInfo ← getInternal storeName
  match newTableInfo with
  | none => return none
  | some table =>
    perform (.cacheInsert storeName table)
    return some table

/-- `TableInfoCache::invalidate`. -/
def invalidate (storeName : Bytes) : Exec Unit := perform (.cacheErase storeName)

end TableInfoCache

namespace NDBMessageExecutor

variable (P : Protobuf)

/-! ## Replies -/

/-- `makeResultForError`. -/
def makeResultForError (transactionId description : Bytes) (errorCode : Int32) : Result :=
  ⟨transactionId, [], some errorCode, some description⟩

/-- `makeResult`. -/
def makeResult (transactionId : Bytes) : Result := ⟨transactionId, [], none, none⟩

/-- `replyWithResult`: frame the result and send it behind the identity. -/
def replyWithResult (result : Result) (identifier : Bytes) : Exec Bool :=
  match FrameBuilder.getBytesOfFrameWithMessage P (.result result) with
  | .error _ => return false
  | .ok bytes => do
    perform (.send identifier bytes)
    return true

/-! ## Definition operations -/

/-- `runQuery`. The query is read up to its first NUL. -/
def runQuery (queryString transactionID : Bytes) : Exec Result := do
  let error : Option Bytes ← perform (.query (cStr queryString))
  match error with
  | some error => return makeResultForError transactionID error 0
  | none => return makeResult transactionID

/-- `getTypeName`. -/
def getTypeName : ColumnType → Bytes
  | .bool => ascii "Tinyint"
  | .int32 => ascii "Int"
  | .uint32 => ascii "Int Unsigned"
  | .int64 => ascii "Bigint"
  | .uint64 => ascii "Bigint Unsigned"
  | .float => ascii "Float"
  | .double => ascii "Double"
  | .char => ascii "Char"
  | .varchar => ascii "Varchar"
  | .varbinary => ascii "Varbinary"

/-- The query of `createDatabase`. -/
def createDatabaseText (operation : CreateDatabaseOperation) : Bytes :=
  ascii "CREATE DATABASE IF NOT EXISTS " ++ operation.databaseName

/-- The query of `execute(DropDatabaseOperation*)`. -/
def dropDatabaseText (operation : DropDatabaseOperation) : Bytes :=
  ascii "DROP DATABASE " ++ operation.databaseName

/-- The query of `execute(DropStoreOperation*)`. -/
def dropStoreText (operation : DropStoreOperation) : Bytes :=
  ascii "DROP TABLE " ++ operation.storeInfo.storeName

/-- The width of a column, where one is given and the type has one. -/
def widthText (column : ColumnInfo) : Bytes :=
  match column.length with
  | none => []
  | some length =>
    match column.type with
    | .varchar | .varbinary =>
      ascii "(" ++ ascii (toString (if length < 255 then 256 else length.toInt)) ++ ascii ")"
    | .char => ascii "(" ++ ascii (toString length.toInt) ++ ascii ")"
    | _ => []

/-- The definition of a column. -/
def columnText (column : ColumnInfo) : Bytes :=
  column.name ++ ascii " " ++ getTypeName column.type ++ widthText column
    ++ ascii " NOT NULL, \n"

/-- Names separated by commas, with a parenthesis behind the last. -/
def namesText : List Bytes → Bytes
  | [] => []
  | [name] => name ++ ascii ")"
  | name :: names => name ++ ascii "," ++ namesText names

/-- The names of the columns that carry a primary key flag, of either
value. -/
def primaryKeyNames (operation : CreateStoreOperation) : List Bytes :=
  (operation.column.filter (·.primaryKey.isSome)).map (·.name)

/-- The names of the columns that carry a distribution key flag, of either
value. -/
def distributionKeyNames (operation : CreateStoreOperation) : List Bytes :=
  (operation.column.filter (·.distributionKey.isSome)).map (·.name)

/-- The query of `execute(CreateStoreOperation*)`. -/
def createTableText (operation : CreateStoreOperation) : Bytes :=
  ascii "CREATE TABLE " ++ operation.storeInfo.storeName ++ ascii "(\n"
    ++ operation.column.flatMap columnText
    ++ ascii "PRIMARY KEY (" ++ namesText (primaryKeyNames operation)
    ++ ascii ",\nINDEX VOLODB_PRUNE_INDEX USING BTREE ("
    ++ namesText (distributionKeyNames operation)
    ++ ascii ")\nENGINE=NDB\n"
    ++ ascii "PARTITION BY KEY (" ++ namesText (distributionKeyNames operation)

/-- `execute(CreateDatabaseOperation*)`. -/
def executeCreateDatabase (operation : CreateDatabaseOperation) (transactionID : Bytes) :
    Exec Result :=
  runQuery (createDatabaseText operation) transactionID

/-- `execute(DropDatabaseOperation*)`. -/
def executeDropDatabase (operation : DropDatabaseOperation) (transactionID : Bytes) :
    Exec Result :=
  runQuery (dropDatabaseText operation) transactionID

/-- `execute(CreateStoreOperation*)`. -/
def executeCreateStore (operation : CreateStoreOperation) (transactionID : Bytes) :
    Exec Result :=
  if primaryKeyNames operation = [] then
    return makeResultForError transactionID (ascii "No primary key indicated") 0
  else if distributionKeyNames operation = [] then
    return makeResultForError transactionID (ascii "No distribution key indicated") 0
  else
    runQuery (createTableText operation) transactionID

/-- `execute(DropStoreOperation*)`. -/
def executeDropStore (operation : DropStoreOperation) (transactionID : Bytes) :
    Exec Result := do
  let res ← runQuery (dropStoreText operation) transactionID
  if res.errorCode.isNone then
    TableInfoCache.invalidate operation.storeInfo.storeName
  return res

/-- The definition branch of the loop: which operation a message is. -/
def executeDefinition (message : Message) (transactionID : Bytes) :
    Exec (Option Result) :=
  match message with
  | .createDatabase operation => some <$> executeCreateDatabase operation transactionID
  | .dropDatabase operation => some <$> executeDropDatabase operation transactionID
  | .createStore operation => some <$> executeCreateStore operation transactionID
  | .dropStore operation => some <$> executeDropStore operation transactionID
  | _ => return none

/-! ## Conditions and values -/

/-- The loop of `setEqualPrimaryKey` and `setEqualDistributedKey`, which
are the same: a condition for every key column. -/
def setEqual : List ColumnValue → NdbOperation → Exec (Option NdbOperation)
  | [], ndbOperation => return some ndbOperation
  | column :: columns, ndbOperation => do
    let res : ReturnCode ←
      perform (.equal ndbOperation.pointer (cStr column.name) column.value)
    match res with
    | .failed => return none
    | .ok =>
      setEqual columns
        { ndbOperation with equals := ndbOperation.equals ++ [(cStr column.name, column.value)] }

/-- `setEqualPrimaryKey`. -/
def setEqualPrimaryKey (primaryKey : List ColumnValue) (ndbOperation : NdbOperation) :
    Exec (Option NdbOperation) :=
  setEqual primaryKey ndbOperation

/-- `setEqualDistributedKey`. -/
def setEqualDistributedKey (primaryKey : List ColumnValue) (ndbOperation : NdbOperation) :
    Exec (Option NdbOperation) :=
  setEqual primaryKey ndbOperation

/-- The loop of `execute(SetOperation*)` over the values. -/
def setValues : List ColumnValue → NdbOperation → Exec (Option NdbOperation)
  | [], ndbOperation => return some ndbOperation
  | column :: columns, ndbOperation => do
    let res : ReturnCode ←
      perform (.setValue ndbOperation.pointer (cStr column.name) column.value)
    match res with
    | .failed => return none
    | .ok =>
      setValues columns
        { ndbOperation with values := ndbOperation.values ++ [(cStr column.name, column.value)] }

/-- The loop of `setEqualValue`: a comparison for every value column. The
column is looked up by its name, and the result used without a check. -/
def setComparisons (tableInfo : Table) :
    List ColumnValue → NdbOperation → Exec (Option NdbOperation)
  | [], ndbOperation => return some ndbOperation
  | column :: columns, ndbOperation =>
    match tableInfo.getColumn (cStr column.name) with
    | none => .fault .nullColumn
    | some columnNo => do
      let res : ReturnCode ←
        perform (.filterCmp ndbOperation.pointer columnNo column.value)
      match res with
      | .failed => return none
      | .ok =>
        setComparisons tableInfo columns
          { ndbOperation with filter := ndbOperation.filter ++ [(columnNo, column.value)] }

/-- `setEqualValue`. -/
def setEqualValue (value : List ColumnValue) (ndbOperation : NdbOperation)
    (tableInfo : Table) : Exec (Option NdbOperation) := do
  let res : ReturnCode ← perform (.filterBegin ndbOperation.pointer)
  match res with
  | .failed => return none
  | .ok =>
    let compared ← setComparisons tableInfo value ndbOperation
    match compared with
    | none => return none
    | some ndbOperation =>
      let res : ReturnCode ← perform (.filterEnd ndbOperation.pointer)
      match res with
      | .failed => return none
      | .ok => return some ndbOperation

/-! ## Manipulation operations -/

/-- `operation->store_info(0)`. -/
def storeInfo0 : List StoreInfo → Exec StoreInfo
  | [] => .fault .storeInfo
  | storeInfo :: _ => return storeInfo

/-- The table of a store: from the cache, or looked up and put there. -/
def tableInfoOf (cachedName storeName : Bytes) : Exec (Option Table) := do
  let tableInfo ← TableInfoCache.get cachedName
  match tableInfo with
  | some table => return some table
  | none => TableInfoCache.set storeName

/-- `_startTransaction`: with the distribution keys as a hint, if there are
any. -/
def startTransaction (columns : List ColumnValue) (storeName : Bytes) :
    Exec (Option Nat) := do
  let tableInfo ← tableInfoOf (cStr storeName) storeName
  match tableInfo with
  | none => return none
  | some table =>
    let noDistributionKeys := getNoDistributionKeyIndexes columns
    if 0 < noDistributionKeys then
      match getHint columns (newHint (noDistributionKeys + 1)) with
      | none => .fault .keyPart
      | some hint => perform (.startTransaction table hint)
    else
      perform (.startTransaction table [])

/-- `execute(SetOperation*)`. -/
def executeSet (setOperation : SetOperation) (transaction : Nat) :
    Exec (Option NdbOperation) := do
  let storeInfo ← storeInfo0 setOperation.storeInfo
  let pointer : Option Nat ←
    perform (.getNdbOperation transaction (cStr storeInfo.storeName))
  match pointer with
  | none => return none
  | some pointer =>
    perform (.define pointer .writeTuple)
    let ndbSetOperation := NdbOperation.new pointer (cStr storeInfo.storeName) .writeTuple
    let res ← setEqualPrimaryKey setOperation.primaryKey ndbSetOperation
    match res with
    | none => return none
    | some ndbSetOperation => setValues setOperation.value ndbSetOperation

/-- `execute(DeleteOperation*)`. -/
def executeDelete (deleteOperation : DeleteOperation) (transaction : Nat) :
    Exec (Option NdbOperation) := do
  let storeInfo ← storeInfo0 deleteOperation.storeInfo
  let pointer : Option Nat ←
    perform (.getNdbOperation transaction (cStr storeInfo.storeName))
  match pointer with
  | none => return none
  | some pointer =>
    perform (.define pointer .deleteTuple)
    setEqualPrimaryKey deleteOperation.primaryKey
      (NdbOperation.new pointer (cStr storeInfo.storeName) .deleteTuple)

/-- **The access path of `execute(GetOperation*)`**: a read by the primary
key when as many key columns are given as the table has, a scan of the
prune index when there are fewer, and otherwise a scan of the table. -/
def accessPath (getOperation : GetOperation) (storeName : Bytes) (transaction : Nat)
    (tableInfo : Table) : Exec (Option NdbOperation) :=
  if getOperation.primaryKey.length = tableInfo.getNoOfPrimaryKeys then do
    let pointer : Option Nat ← perform (.getNdbOperation transaction (cStr storeName))
    match pointer with
    | none => return none
    | some pointer =>
      perform (.define pointer .simpleRead)
      setEqualPrimaryKey getOperation.primaryKey
        (NdbOperation.new pointer (cStr storeName) .simpleRead)
  else if getOperation.primaryKey.length ≠ 0
      ∧ getOperation.primaryKey.length < tableInfo.getNoOfPrimaryKeys then do
    let indexName := ascii "VOLODB_PRUNE_INDEX"
    let pointer : Option Nat ←
      perform (.getNdbIndexScanOperation transaction indexName (cStr storeName))
    match pointer with
    | none => return none
    | some pointer =>
      perform (.define pointer (.indexScan indexName))
      setEqualDistributedKey getOperation.primaryKey
        (NdbOperation.new pointer (cStr storeName) (.indexScan indexName))
  else do
    let pointer : Option Nat ←
      perform (.getNdbScanOperation transaction (cStr storeName))
    match pointer with
    | none => return none
    | some pointer =>
      perform (.define pointer .scan)
      setEqualValue getOperation.value
        (NdbOperation.new pointer (cStr storeName) .scan) tableInfo

/-- The loop of `execute(GetOperation*)` over the numbers of the columns. -/
def getValues (pointer : Nat) : List Nat → List RecAttr → Exec (Option (List RecAttr))
  | [], columnValueRecord => return some columnValueRecord
  | i :: is, columnValueRecord => do
    let columnAttrRec : Option RecAttr ← perform (.getValue pointer i)
    match columnAttrRec with
    | none => return none
    | some columnAttrRec => getValues pointer is (columnValueRecord ++ [columnAttrRec])

/-- `execute(GetOperation*)`: the operation and its column records. -/
def executeGet (getOperation : GetOperation) (transaction : Nat) :
    Exec (Option (NdbOperation × List RecAttr)) := do
  let storeInfo ← storeInfo0 getOperation.storeInfo
  let tableInfo ← tableInfoOf storeInfo.storeName storeInfo.storeName
  match tableInfo with
  | none => return none
  | some tableInfo =>
    let ndbGetOperation ← accessPath getOperation storeInfo.storeName transaction tableInfo
    match ndbGetOperation with
    | none => return none
    | some ndbGetOperation =>
      let columnValueRecord ←
        getValues ndbGetOperation.pointer (List.range tableInfo.getNoOfColumns) []
      match columnValueRecord with
      | none => return none
      | some columnValueRecord => return some (ndbGetOperation, columnValueRecord)

/-! ## The loop over the messages -/

/-- What the loop carries from one message to the next. -/
structure LoopState where
  transaction : Option Nat
  transactionOperations : List OperationState
deriving DecidableEq, Repr

/-- `if(!transaction) transaction = _startTransaction(..)`. -/
def openTransaction (transaction : Option Nat) (primaryKey : List ColumnValue)
    (storeName : Bytes) : Exec (Option Nat) :=
  match transaction with
  | some transaction => return some transaction
  | none => startTransaction primaryKey storeName

/-- What the branches for `SET`, `DELETE` and `GET` have in common: read
the store, start a transaction if there is none, and add the operation. The
results are the pointer to the transaction and the operation, either of
which may be null. -/
def manipulate (storeInfo : List StoreInfo) (primaryKey : List ColumnValue)
    (transaction : Option Nat) (add : Nat → Exec (Option OperationState)) :
    Exec (Option Nat × Option OperationState) := do
  let storeInfo ← storeInfo0 storeInfo
  let transaction ← openTransaction transaction primaryKey storeInfo.storeName
  match transaction with
  | none => return (none, none)
  | some transaction =>
    let newOperation ← add transaction
    return (some transaction, newOperation)

/-- The manipulation branch of the loop, up to the test of the new
operation. -/
def executeManipulation (message : Message) (transaction : Option Nat) :
    Exec (Option Nat × Option OperationState) :=
  match message with
  | .set operation =>
    manipulate operation.storeInfo operation.primaryKey transaction (fun transaction => do
      let newOperation ← executeSet operation transaction
      return newOperation.map (fun o => ⟨.set, o, []⟩))
  | .delete operation =>
    manipulate operation.storeInfo operation.primaryKey transaction (fun transaction => do
      let newOperation ← executeDelete operation transaction
      return newOperation.map (fun o => ⟨.delete, o, []⟩))
  | .get operation =>
    manipulate operation.storeInfo operation.primaryKey transaction (fun transaction => do
      let newOperation ← executeGet operation transaction
      return newOperation.map (fun o => ⟨.get, o.1, o.2⟩))
  | _ => return (transaction, none)

/-- What an operation that could not be added is answered with. An open
transaction is closed. -/
def failureResult (transactionID : Bytes) (transaction : Option Nat) : Exec Result :=
  match transaction with
  | some transaction => do
    let ndbError : NdbError ← perform (.getNdbError transaction)
    perform (.close transaction)
    return makeResultForError transactionID
      (ascii "Transaction started successfully, but error occured while adding query. "
        ++ ascii "Verify that columns flagged as primary or distributed keys and their "
        ++ ascii "corresponding types are correct."
        ++ ascii " Internal error: " ++ ndbError.message)
      ndbError.code
  | none =>
    return makeResultForError transactionID
      (ascii "Unable to start transaction. Verify that store name and distribution key "
        ++ ascii "information was provided correctly.") 0

/-- **One turn of the loop** over the messages of a tuple. None is the
`break`, at which there is no transaction any more. -/
def executeMessage (messagesTuple : FrameMessagesTuple) (s : LoopState)
    (message : Message) : Exec (Option LoopState) :=
  if isDefinitionFrame message then do
    let result ← executeDefinition message messagesTuple.transactionID
    let _ ← replyWithResult P (result.getD (makeResultForError messagesTuple.transactionID
      (ascii "Failed to run definition operation.") 0)) messagesTuple.identifier
    return some s
  else do
    let (transaction, newOperation) ← executeManipulation message s.transaction
    match newOperation with
    | some newOperation =>
      return some ⟨transaction, s.transactionOperations ++ [newOperation]⟩
    | none =>
      let result ← failureResult messagesTuple.transactionID transaction
      let _ ← replyWithResult P result messagesTuple.identifier
      return none

/-- The loop of `execute(FrameMessagesTuple&)`. -/
def executeMessages (messagesTuple : FrameMessagesTuple) :
    List Message → LoopState → Exec (Option LoopState)
  | [], s => return some s
  | message :: messages, s => do
    let next ← executeMessage P messagesTuple s message
    match next with
    | none => return none
    | some s => executeMessages messagesTuple messages s

/-- **`execute(FrameMessagesTuple&)`**: what is prepared at its end, if a
transaction is open then. -/
def execute (messagesTuple : FrameMessagesTuple) : Exec (Option NdbTransactionState) := do
  let last ← executeMessages P messagesTuple messagesTuple.messages ⟨none, []⟩
  match last with
  | some ⟨some transaction, transactionOperations⟩ =>
    let state : NdbTransactionState := ⟨transaction, messagesTuple.transactionID,
      messagesTuple.identifier, transactionOperations⟩
    perform (.executeAsynchPrepare state)
    return some state
  | _ => return none

/-! ## The callback -/

/-- The column value a record gives. `set_type` asserts that the type is one of
`Column.Type`, so that there is none for a record of any other type. -/
def columnOfRecord (record : ColumnRecord) : Option ColumnValue :=
  match record.type with
  | none => none
  | some type => some ⟨record.name, some type, none, none, record.value⟩

/-- `addRecordToResult`: the row the column records hold, unless the assertion
on one of their types fails. -/
def addRecordToResult (columnValues : List RecAttr) (records : Snapshot) : Option Row :=
  (columnValues.mapM (fun record => columnOfRecord (records record))).map Row.mk

/-- The result of one operation of a committed transaction. A scan is read
up to the first answer of `nextResult` that is not a row, whichever it is. -/
def operationResult (operation : OperationState) : Exec OperationResult :=
  if operation.type = .get then
    if operation.operation.access.isScan then do
      let cursor : Cursor ← perform (.nextResult operation.operation.pointer)
      match cursor.rows.mapM (addRecordToResult operation.columnValues) with
      | none => .fault .columnType
      | some rows => return ⟨rows, operation.type⟩
    else do
      let records : Snapshot ← perform (.records operation.operation.pointer)
      match addRecordToResult operation.columnValues records with
      | none => .fault .columnType
      | some row => return ⟨[row], operation.type⟩
  else
    return ⟨[], operation.type⟩

/-- The loop of the callback over the operations. -/
def operationResults : List OperationState → Exec (List OperationResult)
  | [] => return []
  | operation :: operations => do
    let result ← operationResult operation
    let results ← operationResults operations
    return result :: results

/-- **`ndbExecuteCallback`**. -/
def ndbExecuteCallback (result : ReturnCode) (state : NdbTransactionState) : Exec Unit :=
  match result with
  | .failed => do
    let ndbError : NdbError ← perform (.getNdbError state.transaction)
    perform (.close state.transaction)
    let _ ← replyWithResult P
      (makeResultForError state.transactionID ndbError.message ndbError.code)
      state.identifier
    return ()
  | .ok => do
    let results ← operationResults state.operations
    perform (.close state.transaction)
    let _ ← replyWithResult P { makeResult state.transactionID with result := results }
      state.identifier
    return ()

/-- NDB has committed a prepared transaction, or failed to, and runs its
callback. -/
def complete (state : NdbTransactionState) : Exec Unit := do
  let result : ReturnCode ← perform (.callback state)
  ndbExecuteCallback P result state

/-- **The whole life of a tuple**: its execution, and the callback if a
transaction was prepared. -/
def serve (messagesTuple : FrameMessagesTuple) : Exec Unit := do
  let prepared ← execute P messagesTuple
  match prepared with
  | none => return ()
  | some state => complete P state

/-! ## Batches -/

/-- The callbacks one poll runs, for the transactions it has completed.
What remains is pending. -/
def runCallbacks : List Nat → List NdbTransactionState → Exec (List NdbTransactionState)
  | [], pending => return pending
  | transaction :: transactions, pending =>
    match pending.find? (fun state => state.transaction = transaction) with
    | none => runCallbacks transactions pending
    | some state => do
      complete P state
      runCallbacks transactions (pending.erase state)

/-- The loop of `waitForTransactionsToComplete`, through the answers of the
polls. -/
def pollLoop (totalTransactions : Nat) :
    Nat → List NdbTransactionState → List (List Nat) → Exec (List NdbTransactionState)
  | _, _, [] => .fault .waiting
  | completedTransactions, pending, poll :: polls => do
    let pending ← runCallbacks P poll pending
    let completedTransactions := completedTransactions + poll.length
    if completedTransactions < totalTransactions then
      pollLoop totalTransactions completedTransactions pending polls
    else
      return pending

/-- `waitForTransactionsToComplete`. -/
def waitForTransactionsToComplete (totalTransactions : Nat)
    (pending : List NdbTransactionState) : Exec (List NdbTransactionState) :=
  if 0 < totalTransactions then do
    let polls : List (List Nat) ← perform (.pollNdb totalTransactions)
    pollLoop P totalTransactions 0 pending polls
  else
    return pending

/-- What `execute(StoreMsgs&)` carries through its loops: the count of the
transactions prepared since the last wait, and what NDB holds of them. -/
structure BatchState where
  totalTransactions : Nat
  pending : List NdbTransactionState
deriving DecidableEq, Repr

/-- The loop over the tuples of one message. -/
def executeTuples : List FrameMessagesTuple → BatchState → Exec BatchState
  | [], s => return s
  | messagesTuple :: tuples, s => do
    perform (.take messagesTuple)
    let result ← execute P messagesTuple
    match result with
    | none => executeTuples tuples s
    | some state =>
      let totalTransactions := s.totalTransactions + 1
      let pending := s.pending ++ [state]
      if totalTransactions = 1024 then
        let pending ← waitForTransactionsToComplete P totalTransactions pending
        executeTuples tuples ⟨0, pending⟩
      else
        executeTuples tuples ⟨totalTransactions, pending⟩

/-- The loop over the messages, each a list of tuples. -/
def executeLists : List (List FrameMessagesTuple) → BatchState → Exec BatchState
  | [], s => return s
  | taskList :: taskLists, s => do
    let s ← executeTuples P taskList s
    executeLists taskLists s

/-- **`execute(StoreMsgs&)`**: a batch of messages, on an `Ndb` object that
holds `pending` already. At its end nothing is pending unless NDB has not
kept count. -/
def executeBatch (messages : List (List FrameMessagesTuple))
    (pending : List NdbTransactionState) : Exec (List NdbTransactionState) := do
  let s ← executeLists P messages ⟨0, pending⟩
  if 0 < s.totalTransactions then
    waitForTransactionsToComplete P s.totalTransactions s.pending
  else
    return s.pending

end NDBMessageExecutor

end VoloDB
