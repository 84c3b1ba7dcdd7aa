import VoloDB.NDBMessageExecutor

/-!
# The runs of an executor

What each function of `NDBMessageExecutor` can do, once and for all: the
calls it makes, the ways it can fail, and what it leaves behind. A
manipulation operation only *prepares*: its calls reach no client and
change nothing that is stored. A definition operation makes its query and
is answered. `executeMessage_cases` puts this together for one turn of the
loop over the messages, and `serveFrom` is the rest of a tuple's life from
any turn on, by which everything about whole tuples is proved.
-/

namespace VoloDB

open Interaction FrameUtils NDBMessageProcessor

/-! ## Kinds of messages -/

namespace Message

/-- The stores an operation names, of which the first is used. -/
def storeInfos : Message → List StoreInfo
  | .set operation => operation.storeInfo
  | .delete operation => operation.storeInfo
  | .get operation => operation.storeInfo
  | _ => []

/-- The store a `GET` reads, by the name NDB is given for it. -/
def readStore : Message → Option Bytes
  | .get operation => operation.storeInfo.head?.map (fun storeInfo => cStr storeInfo.storeName)
  | _ => none

/-- `SET`, `DELETE` and `GET`. -/
def isManipulation : Message → Bool
  | .set _ | .delete _ | .get _ => true
  | _ => false

/-- An operation whose branch reads a store that is not there. -/
def LacksStore (message : Message) : Prop :=
  message.isManipulation = true ∧ message.storeInfos = []

instance (message : Message) : Decidable message.LacksStore :=
  inferInstanceAs (Decidable (_ ∧ _))

/-- A `GET` that a table can turn into a comparison of a column it does not
have: its value columns are compared when the number of its key columns is
none, or more than the table has, and a table has at least one. -/
def MayLackColumn : Message → Prop
  | .get operation => operation.value ≠ [] ∧ operation.primaryKey.length ≠ 1
  | _ => False

instance (message : Message) : Decidable message.MayLackColumn := by
  cases message <;> unfold MayLackColumn <;> infer_instance

/-- A message the loop can go on after: a definition operation, or a
manipulation operation that names a store. -/
def canPass (message : Message) : Bool :=
  isDefinitionFrame message || (message.isManipulation && !message.storeInfos.isEmpty)

theorem canPass_of_isDefinitionFrame {message : Message}
    (h : isDefinitionFrame message = true) : message.canPass = true := by
  unfold canPass
  rw [h, Bool.true_or]

theorem canPass_of_isManipulation {message : Message} (h : message.isManipulation = true)
    (hs : message.storeInfos ≠ []) : message.canPass = true := by
  unfold canPass
  rw [h, Bool.true_and, Bool.or_eq_true]
  exact Or.inr (by simpa using hs)

theorem isManipulation_of_canPass {message : Message} (h : message.canPass = true)
    (hd : isDefinitionFrame message = false) :
    message.isManipulation = true ∧ message.storeInfos ≠ [] := by
  unfold canPass at h
  simpa [hd] using h

theorem isDefinitionFrame_of_isManipulation {message : Message}
    (h : message.isManipulation = true) : isDefinitionFrame message = false := by
  cases message <;> first | rfl | exact absurd h Bool.false_ne_true

theorem not_isManipulation_of_isDefinitionFrame {message : Message}
    (h : isDefinitionFrame message = true) : ¬ message.isManipulation = true := by
  intro hm
  rw [isDefinitionFrame_of_isManipulation hm] at h
  exact Bool.false_ne_true h

end Message

/-! ## Effects -/

/-- **A change of what is stored.** -/
inductive Effect where
  /-- A definition query that MySQL ran. -/
  | query (text : Bytes)
  /-- A row written by a committed transaction. -/
  | write (storeName : Bytes) (key values : List (Bytes × Bytes))
  /-- A row deleted by a committed transaction. -/
  | delete (storeName : Bytes) (key : List (Bytes × Bytes))
deriving DecidableEq, Repr

/-- What an operation changes when its transaction is committed. -/
def NdbOperation.effect (operation : NdbOperation) : Option Effect :=
  match operation.access with
  | .writeTuple => some (.write operation.storeName operation.equals operation.values)
  | .deleteTuple => some (.delete operation.storeName operation.equals)
  | _ => none

/-- The conditions, or values, a list of columns stands for. -/
def columnPairs (columns : List ColumnValue) : List (Bytes × Bytes) :=
  columns.map (fun column => (cStr column.name, column.value))

/-- **What a message asks to change.** -/
def Message.effect : Message → Option Effect
  | .createDatabase operation =>
    some (.query (cStr (NDBMessageExecutor.createDatabaseText operation)))
  | .dropDatabase operation =>
    some (.query (cStr (NDBMessageExecutor.dropDatabaseText operation)))
  | .createStore operation =>
    some (.query (cStr (NDBMessageExecutor.createTableText operation)))
  | .dropStore operation =>
    some (.query (cStr (NDBMessageExecutor.dropStoreText operation)))
  | .set operation =>
    operation.storeInfo.head?.map (fun storeInfo =>
      .write (cStr storeInfo.storeName) (columnPairs operation.primaryKey)
        (columnPairs operation.value))
  | .delete operation =>
    operation.storeInfo.head?.map (fun storeInfo =>
      .delete (cStr storeInfo.storeName) (columnPairs operation.primaryKey))
  | _ => none

/-- The changes an event makes: a query takes effect when it succeeds, a
transaction when its commit does. -/
def effectsOf : Event Answer → List Effect
  | ⟨.query text, none⟩ => [.query text]
  | ⟨.callback state, .ok⟩ => state.operations.filterMap (fun o => o.operation.effect)
  | _ => []

/-- **The changes of a run**, in order. -/
def journal (trace : Trace) : List Effect := trace.flatMap effectsOf

@[simp] theorem journal_append (trace rest : Trace) :
    journal (trace ++ rest) = journal trace ++ journal rest :=
  List.flatMap_append

@[simp] theorem journal_cons (e : Event Answer) (trace : Trace) :
    journal (e :: trace) = effectsOf e ++ journal trace :=
  List.flatMap_cons

theorem journal_of_isPreparation {trace : Trace}
    (h : ∀ e ∈ trace, e.1.isPreparation = true) : journal trace = [] := by
  refine List.flatMap_eq_nil_iff.mpr (fun e he => ?_)
  obtain ⟨c, r⟩ := e
  have hc := h _ he
  cases c with
  | query text => exact absurd hc Bool.false_ne_true
  | callback state => exact absurd hc Bool.false_ne_true
  | _ => rfl

namespace NDBMessageExecutor

variable (P : Protobuf)

/-! ## Replies -/

/-- The frame a result is sent in. -/
def replyFrame (result : Result) : Frame :=
  ⟨none, [⟨.serverResponse, P.result.serialize result, some []⟩]⟩

/-- The bytes a result is sent as. -/
def replyBytes (result : Result) : Bytes := P.frame.serialize (replyFrame P result)

theorem replyBytes_injective : Function.Injective (replyBytes P) := by
  intro r r' h
  have hframe := P.frame.serialize_injective h
  unfold replyFrame at hframe
  simp only [Frame.mk.injEq, List.cons.injEq, FrameItem.mk.injEq] at hframe
  exact P.result.serialize_injective hframe.2.1.2.1

/-- A result is always framed and sent. -/
theorem replyWithResult_eq (result : Result) (identifier : Bytes) :
    replyWithResult P result identifier
      = Prog.call (.send identifier (replyBytes P result)) (fun _ => Prog.pure true) :=
  rfl

/-! ## Preparations -/

/-- The program makes only preparing calls, and fails only in ways `F`
allows. -/
abbrev Prepares {α : Type} (p : Exec α) (F : Fault → Prop) : Prop :=
  p.Within (fun c => c.isPreparation = true) F

/-- The program makes only calls about operations, and fails only in ways
`F` allows. -/
abbrev Operates {α : Type} (p : Exec α) (F : Fault → Prop) : Prop :=
  p.Within (fun c => c.isOperation = true) F

variable {F : Fault → Prop}

/-- The program makes only calls that build an operation, and fails only in
ways `F` allows. -/
abbrev Builds {α : Type} (p : Exec α) (F : Fault → Prop) : Prop :=
  p.Within (fun c => c.isBuilding = true) F

/-- The program makes only calls that tell an operation something, and fails
only in ways `F` allows. -/
abbrev Fills {α : Type} (p : Exec α) (F : Fault → Prop) : Prop :=
  p.Within (fun c => c.isFilling = true) F

theorem builds_of_fills {α : Type} {p : Exec α} (h : Fills p F) : Builds p F :=
  h.mono (fun _ => Call.isBuilding_of_isFilling) (fun _ hf => hf)

theorem operates_of_builds {α : Type} {p : Exec α} (h : Builds p F) : Operates p F :=
  h.mono (fun _ => Call.isOperation_of_isBuilding) (fun _ hf => hf)

theorem prepares_of_operates {α : Type} {p : Exec α} (h : Operates p F) : Prepares p F :=
  h.mono (fun _ => Call.isPreparation_of_isOperation) (fun _ hf => hf)

theorem prepares_of_builds {α : Type} {p : Exec α} (h : Builds p F) : Prepares p F :=
  prepares_of_operates (operates_of_builds h)

/-- Looking a table up is nothing else. -/
theorem looksUp_tableInfoOf (cachedName storeName : Bytes) :
    (tableInfoOf cachedName storeName).Within (fun c => c.isLookup = true) F := by
  refine Prog.Within.perform_bind rfl (fun cached => ?_)
  cases cached with
  | some table => trivial
  | none =>
    refine Prog.Within.perform_bind rfl (fun found => ?_)
    cases found with
    | none => trivial
    | some table => exact Prog.Within.perform_bind rfl (fun _ => trivial)

theorem prepares_tableInfoOf (cachedName storeName : Bytes) :
    Prepares (tableInfoOf cachedName storeName) F :=
  (looksUp_tableInfoOf cachedName storeName).mono
    (fun _ => Call.isPreparation_of_isLookup) (fun _ hf => hf)

theorem prepares_startTransaction (columns : List ColumnValue) (storeName : Bytes) :
    Prepares (startTransaction columns storeName) F := by
  refine (prepares_tableInfoOf _ _).bind (fun tableInfo => ?_)
  cases tableInfo with
  | none => trivial
  | some table =>
    dsimp only
    split
    · rw [getHint_newHint]
      exact Prog.within_perform.mpr rfl
    · exact Prog.within_perform.mpr rfl

theorem prepares_openTransaction (transaction : Option Nat)
    (columns : List ColumnValue) (storeName : Bytes) :
    Prepares (openTransaction transaction columns storeName) F := by
  cases transaction with
  | some t => trivial
  | none => exact prepares_startTransaction columns storeName

theorem fills_setEqual (columns : List ColumnValue) (ndbOperation : NdbOperation) :
    Fills (setEqual columns ndbOperation) F := by
  induction columns generalizing ndbOperation with
  | nil => trivial
  | cons column columns ih =>
    refine Prog.Within.perform_bind rfl (fun res => ?_)
    cases res with
    | failed => trivial
    | ok => exact ih _

theorem fills_setValues (columns : List ColumnValue) (ndbOperation : NdbOperation) :
    Fills (setValues columns ndbOperation) F := by
  induction columns generalizing ndbOperation with
  | nil => trivial
  | cons column columns ih =>
    refine Prog.Within.perform_bind rfl (fun res => ?_)
    cases res with
    | failed => trivial
    | ok => exact ih _

/-- Only a column the table does not have is reached through a null
pointer. -/
theorem fills_setComparisons (tableInfo : Table) (columns : List ColumnValue)
    (ndbOperation : NdbOperation)
    (hF : ∀ column ∈ columns, tableInfo.getColumn (cStr column.name) = none → F .nullColumn) :
    Fills (setComparisons tableInfo columns ndbOperation) F := by
  induction columns generalizing ndbOperation with
  | nil => trivial
  | cons column columns ih =>
    unfold setComparisons
    cases hcolumn : tableInfo.getColumn (cStr column.name) with
    | none => exact hF column List.mem_cons_self hcolumn
    | some columnNo =>
      refine Prog.Within.perform_bind rfl (fun res => ?_)
      cases res with
      | failed => trivial
      | ok => exact ih _ (fun c hc => hF c (List.mem_cons_of_mem column hc))

theorem fills_setEqualValue (tableInfo : Table) (value : List ColumnValue)
    (ndbOperation : NdbOperation)
    (hF : ∀ column ∈ value, tableInfo.getColumn (cStr column.name) = none → F .nullColumn) :
    Fills (setEqualValue value ndbOperation tableInfo) F := by
  refine Prog.Within.perform_bind rfl (fun res => ?_)
  cases res with
  | failed => trivial
  | ok =>
    refine (fills_setComparisons tableInfo value ndbOperation hF).bind (fun compared => ?_)
    cases compared with
    | none => trivial
    | some ndbOperation =>
      refine Prog.Within.perform_bind rfl (fun res => ?_)
      cases res <;> trivial

/-- What follows the call that makes an operation: if it has made one, the
operation is defined and filled in. -/
def defineAnd (access : Access) (storeName : Bytes)
    (fill : NdbOperation → Exec (Option NdbOperation)) :
    Option Nat → Exec (Option NdbOperation)
  | none => return none
  | some pointer => do
    perform (.define pointer access)
    fill (NdbOperation.new pointer (cStr storeName) access)

theorem fills_defineAnd {access : Access} {storeName : Bytes}
    {fill : NdbOperation → Exec (Option NdbOperation)} (hfill : ∀ o, Fills (fill o) F)
    (pointer : Option Nat) : Fills (defineAnd access storeName fill pointer) F := by
  cases pointer with
  | none => trivial
  | some pointer => exact Prog.Within.perform_bind rfl (fun _ => hfill _)

/-- A `SET` is filled in with its key columns and then with its values. -/
def fillSet (setOperation : SetOperation) (ndbSetOperation : NdbOperation) :
    Exec (Option NdbOperation) := do
  let res ← setEqual setOperation.primaryKey ndbSetOperation
  match res with
  | none => return none
  | some ndbSetOperation => setValues setOperation.value ndbSetOperation

theorem executeSet_eq {operation : SetOperation} {storeInfo : StoreInfo}
    {rest : List StoreInfo} (hs : operation.storeInfo = storeInfo :: rest)
    (transaction : Nat) :
    executeSet operation transaction
      = perform (.getNdbOperation transaction (cStr storeInfo.storeName))
          >>= defineAnd .writeTuple storeInfo.storeName (fillSet operation) := by
  unfold executeSet
  rw [hs]
  rfl

theorem executeDelete_eq {operation : DeleteOperation} {storeInfo : StoreInfo}
    {rest : List StoreInfo} (hs : operation.storeInfo = storeInfo :: rest)
    (transaction : Nat) :
    executeDelete operation transaction
      = perform (.getNdbOperation transaction (cStr storeInfo.storeName))
          >>= defineAnd .deleteTuple storeInfo.storeName (setEqual operation.primaryKey) := by
  unfold executeDelete
  rw [hs]
  rfl

theorem fills_fillSet (operation : SetOperation) (ndbOperation : NdbOperation) :
    Fills (fillSet operation ndbOperation) F := by
  refine (fills_setEqual _ _).bind (fun res => ?_)
  cases res with
  | none => trivial
  | some ndbSetOperation => exact fills_setValues _ _

theorem builds_executeSet (operation : SetOperation) (transaction : Nat)
    (hF : operation.storeInfo = [] → F .storeInfo) :
    Builds (executeSet operation transaction) F := by
  cases hs : operation.storeInfo with
  | nil =>
    unfold executeSet
    rw [hs]
    exact hF hs
  | cons storeInfo rest =>
    rw [executeSet_eq hs]
    exact Prog.Within.perform_bind rfl
      (fun _ => builds_of_fills (fills_defineAnd (fills_fillSet operation) _))

theorem builds_executeDelete (operation : DeleteOperation) (transaction : Nat)
    (hF : operation.storeInfo = [] → F .storeInfo) :
    Builds (executeDelete operation transaction) F := by
  cases hs : operation.storeInfo with
  | nil =>
    unfold executeDelete
    rw [hs]
    exact hF hs
  | cons storeInfo rest =>
    rw [executeDelete_eq hs]
    exact Prog.Within.perform_bind rfl
      (fun _ => builds_of_fills (fills_defineAnd (fills_setEqual _) _))

/-- The three paths, each an operation that is made, defined and filled
in. -/
theorem accessPath_eq (operation : GetOperation) (storeName : Bytes) (transaction : Nat)
    (tableInfo : Table) :
    accessPath operation storeName transaction tableInfo
      = if operation.primaryKey.length = tableInfo.getNoOfPrimaryKeys then
          perform (.getNdbOperation transaction (cStr storeName))
            >>= defineAnd .simpleRead storeName (setEqual operation.primaryKey)
        else if operation.primaryKey.length ≠ 0
            ∧ operation.primaryKey.length < tableInfo.getNoOfPrimaryKeys then
          perform (.getNdbIndexScanOperation transaction (ascii "VOLODB_PRUNE_INDEX")
              (cStr storeName))
            >>= defineAnd (.indexScan (ascii "VOLODB_PRUNE_INDEX")) storeName
              (setEqual operation.primaryKey)
        else
          perform (.getNdbScanOperation transaction (cStr storeName))
            >>= defineAnd .scan storeName (fun o => setEqualValue operation.value o tableInfo) :=
  rfl

theorem builds_accessPath (operation : GetOperation) (storeName : Bytes)
    (transaction : Nat) (tableInfo : Table)
    (hF : Message.MayLackColumn (.get operation) → F .nullColumn) :
    Builds (accessPath operation storeName transaction tableInfo) F := by
  have hpos := tableInfo.getNoOfPrimaryKeys_pos
  have hequal : ∀ o, Fills (setEqual operation.primaryKey o) F := fills_setEqual _
  rw [accessPath_eq]
  split
  · exact Prog.Within.perform_bind rfl (fun _ => builds_of_fills (fills_defineAnd hequal _))
  · split
    · exact Prog.Within.perform_bind rfl (fun _ => builds_of_fills (fills_defineAnd hequal _))
    · refine Prog.Within.perform_bind rfl (fun _ => builds_of_fills (fills_defineAnd ?_ _))
      -- no key column, or more of them than the one a table has at least
      exact fun o => fills_setEqualValue _ _ o
        (fun column hc _ => hF ⟨List.ne_nil_of_mem hc, by omega⟩)

theorem builds_getValues (pointer : Nat) (columns : List Nat) (records : List RecAttr) :
    Builds (getValues pointer columns records) F := by
  induction columns generalizing records with
  | nil => trivial
  | cons i columns ih =>
    refine Prog.Within.perform_bind rfl (fun record => ?_)
    cases record with
    | none => trivial
    | some record => exact ih _

/-- The calls of a `GET`: lookups, and what builds its operation. -/
theorem within_executeGet {S : Call → Prop} (hlookup : ∀ c, c.isLookup = true → S c)
    (hbuilding : ∀ c, c.isBuilding = true → S c) (operation : GetOperation)
    (transaction : Nat) (hF : operation.storeInfo = [] → F .storeInfo)
    (hF' : Message.MayLackColumn (.get operation) → F .nullColumn) :
    (executeGet operation transaction).Within S F := by
  unfold executeGet
  cases hs : operation.storeInfo with
  | nil => exact hF hs
  | cons storeInfo rest =>
    refine ((looksUp_tableInfoOf _ _).mono hlookup (fun _ hf => hf)).bind (fun tableInfo => ?_)
    cases tableInfo with
    | none => trivial
    | some tableInfo =>
      refine ((builds_accessPath _ _ _ _ hF').mono hbuilding (fun _ hf => hf)).bind
        (fun path => ?_)
      cases path with
      | none => trivial
      | some ndbGetOperation =>
        refine ((builds_getValues _ _ _).mono hbuilding (fun _ hf => hf)).bind (fun records => ?_)
        cases records <;> trivial

theorem prepares_executeGet (operation : GetOperation) (transaction : Nat)
    (hF : operation.storeInfo = [] → F .storeInfo)
    (hF' : Message.MayLackColumn (.get operation) → F .nullColumn) :
    Prepares (executeGet operation transaction) F :=
  within_executeGet (fun _ => Call.isPreparation_of_isLookup)
    (fun _ h => Call.isPreparation_of_isOperation (Call.isOperation_of_isBuilding h))
    operation transaction hF hF'

theorem prepares_manipulate (storeInfo : List StoreInfo) (primaryKey : List ColumnValue)
    (transaction : Option Nat) {add : Nat → Exec (Option OperationState)}
    (hF : storeInfo = [] → F .storeInfo) (hadd : ∀ t, Prepares (add t) F) :
    Prepares (manipulate storeInfo primaryKey transaction add) F := by
  unfold manipulate
  cases hs : storeInfo with
  | nil => exact hF hs
  | cons store rest =>
    refine (prepares_openTransaction _ _ _).bind (fun started => ?_)
    cases started with
    | none => trivial
    | some t => exact (hadd t).bind (fun _ => trivial)

/-- The ways a message can make the loop fail. -/
def MayFault (message : Message) (f : Fault) : Prop :=
  f = .storeInfo ∧ message.LacksStore ∨ f = .nullColumn ∧ message.MayLackColumn

/-- **A manipulation operation only prepares.** -/
theorem prepares_executeManipulation (message : Message) (transaction : Option Nat) :
    Prepares (executeManipulation message transaction) (MayFault message) := by
  cases message with
  | set operation =>
    refine prepares_manipulate _ _ _ (fun h => Or.inl ⟨rfl, rfl, h⟩) (fun t => ?_)
    exact (prepares_of_builds (builds_executeSet _ _
      (fun h => Or.inl ⟨rfl, rfl, h⟩))).bind (fun _ => trivial)
  | delete operation =>
    refine prepares_manipulate _ _ _ (fun h => Or.inl ⟨rfl, rfl, h⟩) (fun t => ?_)
    exact (prepares_of_builds (builds_executeDelete _ _
      (fun h => Or.inl ⟨rfl, rfl, h⟩))).bind (fun _ => trivial)
  | get operation =>
    refine prepares_manipulate _ _ _ (fun h => Or.inl ⟨rfl, rfl, h⟩) (fun t => ?_)
    exact (prepares_executeGet _ _ (fun h => Or.inl ⟨rfl, rfl, h⟩)
      (fun h => Or.inr ⟨rfl, h⟩)).bind (fun _ => trivial)
  | _ => trivial

theorem operates_failureResult (transactionID : Bytes) (transaction : Option Nat) :
    Operates (failureResult transactionID transaction) F := by
  cases transaction with
  | none => trivial
  | some transaction =>
    exact Prog.Within.perform_bind rfl (fun _ => Prog.Within.perform_bind rfl (fun _ => trivial))

/-- Reading the results of a committed transaction is nothing else, and fails
only where a row cannot be shown. -/
theorem reads_operationResults (operations : List OperationState) (hF : F .columnType) :
    (operationResults operations).Within (fun c => c.isReading = true) F := by
  induction operations with
  | nil => trivial
  | cons operation operations ih =>
    have hone : (operationResult operation).Within (fun c => c.isReading = true) F := by
      unfold operationResult
      split
      · split
        · refine Prog.Within.perform_bind rfl (fun cursor => ?_)
          split
          · exact hF
          · trivial
        · refine Prog.Within.perform_bind rfl (fun records => ?_)
          split
          · exact hF
          · trivial
      · trivial
    exact hone.bind (fun _ => ih.bind (fun _ => trivial))

theorem operates_operationResults (operations : List OperationState) (hF : F .columnType) :
    Operates (operationResults operations) F :=
  (reads_operationResults operations hF).mono (fun _ => Call.isOperation_of_isReading)
    (fun _ hf => hf)

/-! ## Definition operations -/

/-- The program makes only the calls of a definition operation, and fails
only in ways `F` allows. -/
abbrev Queries {α : Type} (p : Exec α) (F : Fault → Prop) : Prop :=
  p.Within (fun c => c.isDefinition = true) F

theorem queries_runQuery (text transactionID : Bytes) :
    Queries (runQuery text transactionID) F := by
  refine Prog.Within.perform_bind rfl (fun error => ?_)
  cases error <;> trivial

theorem queries_executeDefinition (message : Message) (transactionID : Bytes) :
    Queries (executeDefinition message transactionID) F := by
  cases message with
  | createDatabase operation => exact (queries_runQuery _ _).bind (fun _ => trivial)
  | dropDatabase operation => exact (queries_runQuery _ _).bind (fun _ => trivial)
  | createStore operation =>
    refine Prog.Within.bind ?_ (fun _ => trivial)
    unfold executeCreateStore
    split
    · trivial
    · split
      · trivial
      · exact queries_runQuery _ _
  | dropStore operation =>
    refine Prog.Within.bind ((queries_runQuery _ _).bind (fun res => ?_)) (fun _ => trivial)
    split
    · exact Prog.Within.perform_bind rfl (fun _ => trivial)
    · trivial
  | _ => trivial

/-! ## What an operation has been told -/

/-- An operation of a transaction does what its message asks for. What reads
is of the store of its `GET`, and there is a record to be read. -/
structure Adds (message : Message) (operation : OperationState) : Prop where
  type_eq : operation.type = getFrameType message
  effect_eq : operation.operation.effect = message.effect
  reads : ∀ storeName ∈ message.readStore,
    operation.operation.storeName = storeName ∧ operation.columnValues ≠ []

/-- The values of a program that ends with an operation or null. -/
abbrev YieldsSome {α : Type} (p : Exec (Option α)) (V : α → Prop) : Prop :=
  p.Yields (fun o => ∀ a, o = some a → V a)

theorem yieldsSome_none {α : Type} {V : α → Prop} :
    YieldsSome (return none : Exec (Option α)) V :=
  fun _ h => nomatch h

theorem yieldsSome_some {α : Type} {V : α → Prop} {a : α} (h : V a) :
    YieldsSome (return some a : Exec (Option α)) V :=
  fun _ e => Option.some.inj e ▸ h

theorem yields_setEqual (columns : List ColumnValue) (ndbOperation : NdbOperation) :
    YieldsSome (setEqual columns ndbOperation) (fun o =>
      o = { ndbOperation with equals := ndbOperation.equals ++ columnPairs columns }) := by
  induction columns generalizing ndbOperation with
  | nil => exact yieldsSome_some (by simp [columnPairs])
  | cons column columns ih =>
    refine Prog.Yields.perform_bind (fun res => ?_)
    cases res with
    | failed => exact yieldsSome_none
    | ok =>
      refine (ih _).mono (fun o h a ha => (h a ha).trans ?_)
      simp [columnPairs]

theorem yields_setValues (columns : List ColumnValue) (ndbOperation : NdbOperation) :
    YieldsSome (setValues columns ndbOperation) (fun o =>
      o = { ndbOperation with values := ndbOperation.values ++ columnPairs columns }) := by
  induction columns generalizing ndbOperation with
  | nil => exact yieldsSome_some (by simp [columnPairs])
  | cons column columns ih =>
    refine Prog.Yields.perform_bind (fun res => ?_)
    cases res with
    | failed => exact yieldsSome_none
    | ok =>
      refine (ih _).mono (fun o h a ha => (h a ha).trans ?_)
      simp [columnPairs]

theorem yields_setComparisons (tableInfo : Table) (columns : List ColumnValue)
    (ndbOperation : NdbOperation) :
    YieldsSome (setComparisons tableInfo columns ndbOperation) (fun o =>
      o.pointer = ndbOperation.pointer ∧ o.access = ndbOperation.access
        ∧ o.storeName = ndbOperation.storeName) := by
  induction columns generalizing ndbOperation with
  | nil => exact yieldsSome_some ⟨rfl, rfl, rfl⟩
  | cons column columns ih =>
    unfold setComparisons
    cases tableInfo.getColumn (cStr column.name) with
    | none => trivial
    | some columnNo =>
      refine Prog.Yields.perform_bind (fun res => ?_)
      cases res with
      | failed => exact yieldsSome_none
      | ok => exact (ih _).mono (fun o h a ha => h a ha)

theorem yields_setEqualValue (tableInfo : Table) (value : List ColumnValue)
    (ndbOperation : NdbOperation) :
    YieldsSome (setEqualValue value ndbOperation tableInfo) (fun o =>
      o.pointer = ndbOperation.pointer ∧ o.access = ndbOperation.access
        ∧ o.storeName = ndbOperation.storeName) := by
  refine Prog.Yields.perform_bind (fun res => ?_)
  cases res with
  | failed => exact yieldsSome_none
  | ok =>
    refine (yields_setComparisons tableInfo value ndbOperation).bind (fun compared h => ?_)
    cases compared with
    | none => exact yieldsSome_none
    | some compared =>
      refine Prog.Yields.perform_bind (fun res => ?_)
      cases res with
      | failed => exact yieldsSome_none
      | ok => exact yieldsSome_some (h compared rfl)

theorem yields_defineAnd {access : Access} {storeName : Bytes}
    {fill : NdbOperation → Exec (Option NdbOperation)} {V : NdbOperation → Prop}
    (hfill : ∀ pointer, YieldsSome (fill (NdbOperation.new pointer (cStr storeName) access)) V)
    (pointer : Option Nat) : YieldsSome (defineAnd access storeName fill pointer) V := by
  cases pointer with
  | none => exact yieldsSome_none
  | some pointer => exact Prog.Yields.perform_bind (fun _ => hfill pointer)

theorem yields_fillSet (operation : SetOperation) (ndbOperation : NdbOperation) :
    YieldsSome (fillSet operation ndbOperation) (fun o =>
      o = { ndbOperation with
        equals := ndbOperation.equals ++ columnPairs operation.primaryKey
        values := ndbOperation.values ++ columnPairs operation.value }) := by
  refine (yields_setEqual operation.primaryKey _).bind (fun res h => ?_)
  cases res with
  | none => exact yieldsSome_none
  | some ndbSetOperation =>
    refine (yields_setValues operation.value ndbSetOperation).mono (fun o h' a ha => ?_)
    rw [h' a ha, h ndbSetOperation rfl]

theorem yields_executeSet (operation : SetOperation) (transaction : Nat) :
    YieldsSome (executeSet operation transaction) (fun o =>
      o.effect = Message.effect (.set operation)) := by
  cases hs : operation.storeInfo with
  | nil =>
    unfold executeSet
    rw [hs]
    trivial
  | cons storeInfo rest =>
    rw [executeSet_eq hs]
    refine Prog.Yields.perform_bind (fun _ => yields_defineAnd (fun pointer => ?_) _)
    refine (yields_fillSet operation _).mono (fun o h a ha => ?_)
    rw [h a ha, Message.effect, hs]
    rfl

theorem yields_executeDelete (operation : DeleteOperation) (transaction : Nat) :
    YieldsSome (executeDelete operation transaction) (fun o =>
      o.effect = Message.effect (.delete operation)) := by
  cases hs : operation.storeInfo with
  | nil =>
    unfold executeDelete
    rw [hs]
    trivial
  | cons storeInfo rest =>
    rw [executeDelete_eq hs]
    refine Prog.Yields.perform_bind (fun _ => yields_defineAnd (fun pointer => ?_) _)
    refine (yields_setEqual operation.primaryKey _).mono (fun o h a ha => ?_)
    rw [h a ha, Message.effect, hs]
    rfl

/-- Whatever the path, it is one that reads the store. -/
theorem yields_accessPath (operation : GetOperation) (storeName : Bytes)
    (transaction : Nat) (tableInfo : Table) :
    YieldsSome (accessPath operation storeName transaction tableInfo) (fun o =>
      o.effect = none ∧ o.storeName = cStr storeName) := by
  rw [accessPath_eq]
  split
  · refine Prog.Yields.perform_bind (fun _ => yields_defineAnd (fun pointer => ?_) _)
    refine (yields_setEqual operation.primaryKey _).mono (fun o h a ha => ?_)
    rw [h a ha]
    exact ⟨rfl, rfl⟩
  · split
    · refine Prog.Yields.perform_bind (fun _ => yields_defineAnd (fun pointer => ?_) _)
      refine (yields_setEqual operation.primaryKey _).mono (fun o h a ha => ?_)
      rw [h a ha]
      exact ⟨rfl, rfl⟩
    · refine Prog.Yields.perform_bind (fun _ => yields_defineAnd (fun pointer => ?_) _)
      refine (yields_setEqualValue tableInfo operation.value _).mono (fun o h a ha => ?_)
      obtain ⟨-, haccess, hstore⟩ := h a ha
      refine ⟨?_, hstore⟩
      show NdbOperation.effect a = none
      unfold NdbOperation.effect
      rw [haccess]
      rfl

/-- The records are as many as the columns that were asked for. -/
theorem yields_getValues (pointer : Nat) (columns : List Nat) (records : List RecAttr) :
    YieldsSome (getValues pointer columns records) (fun r =>
      r.length = records.length + columns.length) := by
  induction columns generalizing records with
  | nil => exact yieldsSome_some rfl
  | cons i columns ih =>
    refine Prog.Yields.perform_bind (fun columnAttrRec => ?_)
    cases columnAttrRec with
    | none => exact yieldsSome_none
    | some columnAttrRec =>
      refine (ih _).mono (fun o h a ha => (h a ha).trans ?_)
      rw [List.length_append, List.length_singleton, List.length_cons]
      omega

/-- What a `GET` asks for of the operation its path has made, if any: a
record of each column. -/
def askRecords (noOfColumns : Nat) :
    Option NdbOperation → Exec (Option (NdbOperation × List RecAttr))
  | none => return none
  | some ndbGetOperation => do
    let columnValueRecord ←
      getValues ndbGetOperation.pointer (List.range noOfColumns) []
    match columnValueRecord with
    | none => return none
    | some columnValueRecord => return some (ndbGetOperation, columnValueRecord)

/-- Asking for the records leaves the operation as its path has made it. -/
theorem yields_askRecords {path : Exec (Option NdbOperation)} {V : NdbOperation → Prop}
    (noOfColumns : Nat) (h : YieldsSome path V) :
    YieldsSome (path >>= askRecords noOfColumns)
      (fun r => V r.1 ∧ r.2.length = noOfColumns) := by
  refine h.bind (fun found hfound => ?_)
  cases found with
  | none => exact yieldsSome_none
  | some ndbGetOperation =>
    refine (yields_getValues _ _ _).bind (fun records hrecords => ?_)
    cases records with
    | none => exact yieldsSome_none
    | some records =>
      refine yieldsSome_some ⟨hfound ndbGetOperation rfl, ?_⟩
      rw [hrecords records rfl, List.length_nil, List.length_range, Nat.zero_add]

theorem yields_executeGet (operation : GetOperation) (transaction : Nat) :
    YieldsSome (executeGet operation transaction) (fun o => o.1.effect = none
      ∧ ∀ storeName ∈ Message.readStore (.get operation),
        o.1.storeName = storeName ∧ o.2 ≠ []) := by
  unfold executeGet
  cases hs : operation.storeInfo with
  | nil => trivial
  | cons storeInfo rest =>
    refine (Prog.yields_true (tableInfoOf _ _)).bind (fun tableInfo _ => ?_)
    cases tableInfo with
    | none => exact yieldsSome_none
    | some tableInfo =>
      refine (yields_askRecords tableInfo.getNoOfColumns
        (yields_accessPath operation _ transaction tableInfo)).mono (fun o h a ha => ?_)
      obtain ⟨⟨heffect, hstore⟩, hlength⟩ := h a ha
      refine ⟨heffect, fun storeName hname => ⟨?_, ?_⟩⟩
      · rw [Message.readStore, hs] at hname
        exact hstore.trans (Option.some.inj hname)
      · rw [← List.length_pos_iff, hlength]
        exact tableInfo.getNoOfPrimaryKeys_pos.trans_le List.countP_le_length

theorem yields_manipulate (storeInfo : List StoreInfo) (primaryKey : List ColumnValue)
    (transaction : Option Nat) {add : Nat → Exec (Option OperationState)}
    {V : OperationState → Prop} (hadd : ∀ t, YieldsSome (add t) V) :
    (manipulate storeInfo primaryKey transaction add).Yields (fun r =>
      ∀ o, r.2 = some o → r.1.isSome = true ∧ V o) := by
  unfold manipulate
  cases storeInfo with
  | nil => trivial
  | cons store rest =>
    refine (Prog.yields_true (openTransaction _ _ _)).bind (fun started _ => ?_)
    cases started with
    | none => exact fun o h => nomatch h
    | some t =>
      exact (hadd t).bind (fun added h => fun o ho => ⟨rfl, h o ho⟩)

/-- **An operation that is added does what its message asks for**, and it
is added to a transaction. -/
theorem yields_executeManipulation (message : Message) (transaction : Option Nat) :
    (executeManipulation message transaction).Yields (fun r =>
      ∀ o, r.2 = some o → r.1.isSome = true ∧ Adds message o) := by
  have hmap : ∀ {α : Type} {V : OperationState → Prop} {W : α → Prop} {p : Exec (Option α)}
      {g : α → OperationState}, YieldsSome p W → (∀ a, W a → V (g a)) →
      YieldsSome (do let o ← p; return o.map g) V := by
    intro α V W p g hp hg
    refine hp.bind (fun o h a ha => ?_)
    obtain ⟨b, hb, rfl⟩ := Option.map_eq_some_iff.mp ha
    exact hg b (h b hb)
  cases message with
  | set operation =>
    exact yields_manipulate _ _ _
      (fun t => hmap (yields_executeSet operation t)
        (fun o h => ⟨rfl, h, fun _ hn => nomatch hn⟩))
  | delete operation =>
    exact yields_manipulate _ _ _
      (fun t => hmap (yields_executeDelete operation t)
        (fun o h => ⟨rfl, h, fun _ hn => nomatch hn⟩))
  | get operation =>
    exact yields_manipulate _ _ _
      (fun t => hmap (yields_executeGet operation t) (fun o h => ⟨rfl, h.1, h.2⟩))
  | _ => exact fun o h => nomatch h

end NDBMessageExecutor

end VoloDB
