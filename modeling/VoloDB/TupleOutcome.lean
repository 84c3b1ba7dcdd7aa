import VoloDB.OpenTransactions
import VoloDB.Scans

/-!
# What becomes of a tuple

A tuple of manipulation operations opens a transaction and adds to it one
operation per message, as long as nothing fails. The operations are kept in a
list beside the transaction, and it is by its place in this list that the
callback finds what belongs to which message.

`AddedAll` follows the list through the loop: each message makes one NDB
operation and asks for the column records of that operation only. Either the
loop comes to its end and the transaction is committed with the whole list
(`Carried`), or it breaks off, and nothing is left of the transaction but an
error reply (`Rejected`). Which of the two it is depends on NDB;
`serve_rejected_or_carried_iff` says that it is always one of them and never
both, unless a row that is read cannot be shown, which ends the server in
the middle of its callback.
-/

namespace VoloDB

open Interaction FrameUtils NDBMessageProcessor NDBMessageExecutor

/-! ## What is made for an operation -/

/-- The operation a call has made, with its transaction. -/
def createdBy : Event Answer → List (Nat × Nat)
  | ⟨.getNdbOperation transaction _, some pointer⟩ => [(transaction, pointer)]
  | ⟨.getNdbIndexScanOperation transaction _ _, some pointer⟩ => [(transaction, pointer)]
  | ⟨.getNdbScanOperation transaction _, some pointer⟩ => [(transaction, pointer)]
  | _ => []

/-- The column record a call has asked for, with its operation. -/
def recordedBy : Event Answer → List (Nat × RecAttr)
  | ⟨.getValue operation _, some record⟩ => [(operation, record)]
  | _ => []

/-- The NDB operations that were made in a run, in order. -/
def created (trace : Trace) : List (Nat × Nat) := trace.flatMap createdBy

/-- The column records that were asked for. -/
def recorded (trace : Trace) : List (Nat × RecAttr) := trace.flatMap recordedBy

@[simp] theorem created_append (trace rest : Trace) :
    created (trace ++ rest) = created trace ++ created rest :=
  List.flatMap_append

@[simp] theorem recorded_append (trace rest : Trace) :
    recorded (trace ++ rest) = recorded trace ++ recorded rest :=
  List.flatMap_append

theorem created_eq_nil {trace : Trace} (h : ∀ e ∈ trace, createdBy e = [] ∧ recordedBy e = []) :
    created trace = [] ∧ recorded trace = [] :=
  ⟨List.flatMap_eq_nil_iff.mpr (fun e he => (h e he).1),
    List.flatMap_eq_nil_iff.mpr (fun e he => (h e he).2)⟩

/-- Lookups make nothing. -/
theorem created_of_isLookup {trace : Trace} (h : ∀ e ∈ trace, e.1.isLookup = true) :
    created trace = [] ∧ recorded trace = [] := by
  refine created_eq_nil (fun ⟨c, r⟩ he => ?_)
  have hc := h _ he
  cases c <;> first | exact ⟨rfl, rfl⟩ | exact absurd hc Bool.false_ne_true

/-- Filling an operation in makes nothing. -/
theorem created_of_isFilling {trace : Trace} (h : ∀ e ∈ trace, e.1.isFilling = true) :
    created trace = [] ∧ recorded trace = [] := by
  refine created_eq_nil (fun ⟨c, r⟩ he => ?_)
  have hc := h _ he
  cases c <;> first | exact ⟨rfl, rfl⟩ | exact absurd hc Bool.false_ne_true

/-! ## Adding an operation -/

/-- The trace makes one NDB operation of the transaction, and asks for these
records of it and no others. -/
def Makes (transaction pointer : Nat) (records : List RecAttr) (trace : Trace) : Prop :=
  created trace = [(transaction, pointer)]
    ∧ recorded trace = records.map (fun record => (pointer, record))

/-- A program that ends with null, or with an operation it has made. -/
abbrev MakesSome (transaction : Nat) (p : Exec (Option NdbOperation)) : Prop :=
  p.Returns (fun trace result =>
    ∀ operation ∈ result, Makes transaction operation.pointer [] trace)

/-- A program that fills an operation in, without fault, and keeps its
pointer. -/
structure FillsIn (pointer : Nat) (p : Exec (Option NdbOperation)) : Prop where
  fills : Fills p (fun _ => False)
  pointer_eq : YieldsSome p (fun o => o.pointer = pointer)

section FillsIn

variable {ndbOperation : NdbOperation} {pointer : Nat} (hpointer : ndbOperation.pointer = pointer)

include hpointer

theorem fillsIn_setEqual (columns : List ColumnValue) :
    FillsIn pointer (setEqual columns ndbOperation) := by
  refine ⟨fills_setEqual _ _, (yields_setEqual _ _).mono (fun o h a ha => ?_)⟩
  rw [h a ha, hpointer]

theorem fillsIn_setEqualValue {tableInfo : Table} {value : List ColumnValue}
    (h : ∀ column ∈ value, tableInfo.getColumn (cStr column.name) ≠ none) :
    FillsIn pointer (setEqualValue value ndbOperation tableInfo) := by
  refine ⟨fills_setEqualValue _ _ _ (fun column hc hnone => h column hc hnone),
    (yields_setEqualValue _ _ _).mono (fun o ho a ha => ?_)⟩
  exact (ho a ha).1.trans hpointer

end FillsIn

/-- What is made by a call, and defined and filled in afterwards. -/
theorem makes_defineAnd {transaction : Nat} {access : Access} {storeName : Bytes}
    {fill : NdbOperation → Exec (Option NdbOperation)}
    (hfill : ∀ pointer, FillsIn pointer (fill (NdbOperation.new pointer (cStr storeName) access)))
    {e : Event Answer} {pointer : Option Nat}
    (hcreated : createdBy e = (pointer.map (fun pointer => (transaction, pointer))).toList)
    (hrecorded : recordedBy e = []) :
    (defineAnd access storeName fill pointer).Returns (fun trace result =>
      ∀ operation ∈ result, Makes transaction operation.pointer [] (e :: trace)) := by
  cases pointer with
  | none => exact Prog.returns_pure (fun _ h => nomatch h)
  | some pointer =>
    have hfills : Fills (defineAnd access storeName fill (some pointer)) (fun _ => False) :=
      Prog.Within.perform_bind rfl (fun _ => (hfill pointer).fills)
    have hpointer : YieldsSome (defineAnd access storeName fill (some pointer))
        (fun o => o.pointer = pointer) :=
      Prog.Yields.perform_bind (fun _ => (hfill pointer).pointer_eq)
    refine (hfills.returns hpointer).mono ?_
    rintro trace result ⟨hfilling, hpointer⟩ operation hoperation
    obtain ⟨hc, hr⟩ := created_of_isFilling hfilling
    rw [hpointer operation hoperation]
    constructor
    · show createdBy e ++ created trace = _
      rw [hcreated, hc, List.append_nil]
      rfl
    · show recordedBy e ++ recorded trace = _
      rw [hrecorded, hr]
      rfl

theorem fillsIn_fillSet (operation : SetOperation) {ndbOperation : NdbOperation}
    {pointer : Nat} (hpointer : ndbOperation.pointer = pointer) :
    FillsIn pointer (fillSet operation ndbOperation) := by
  refine ⟨fills_fillSet _ _, (yields_fillSet _ _).mono (fun o h a ha => ?_)⟩
  rw [h a ha, hpointer]

theorem makesSome_executeSet {operation : SetOperation} (hs : operation.storeInfo ≠ [])
    (transaction : Nat) : MakesSome transaction (executeSet operation transaction) := by
  obtain ⟨storeInfo, rest, hstore⟩ := List.exists_cons_of_ne_nil hs
  rw [executeSet_eq hstore]
  refine Prog.ensures_call.mpr (fun pointer => makes_defineAnd (fun pointer => ?_) ?_ rfl)
  · exact fillsIn_fillSet operation (Eq.refl pointer)
  · cases pointer <;> rfl

theorem makesSome_executeDelete {operation : DeleteOperation} (hs : operation.storeInfo ≠ [])
    (transaction : Nat) : MakesSome transaction (executeDelete operation transaction) := by
  obtain ⟨storeInfo, rest, hstore⟩ := List.exists_cons_of_ne_nil hs
  rw [executeDelete_eq hstore]
  refine Prog.ensures_call.mpr (fun pointer => makes_defineAnd (fun pointer => ?_) ?_ rfl)
  · exact fillsIn_setEqual (Eq.refl pointer) _
  · cases pointer <;> rfl

/-- Whatever the path, it makes one operation. -/
theorem makesSome_accessPath {operation : GetOperation} {tableInfo : Table}
    (h : ∀ column ∈ operation.value, tableInfo.getColumn (cStr column.name) ≠ none)
    (storeName : Bytes) (transaction : Nat) :
    MakesSome transaction (accessPath operation storeName transaction tableInfo) := by
  rw [accessPath_eq]
  split
  · refine Prog.ensures_call.mpr (fun pointer => makes_defineAnd (fun pointer => ?_) ?_ rfl)
    · exact fillsIn_setEqual (Eq.refl pointer) _
    · cases pointer <;> rfl
  · split
    · refine Prog.ensures_call.mpr (fun pointer => makes_defineAnd (fun pointer => ?_) ?_ rfl)
      · exact fillsIn_setEqual (Eq.refl pointer) _
      · cases pointer <;> rfl
    · refine Prog.ensures_call.mpr (fun pointer => makes_defineAnd (fun pointer => ?_) ?_ rfl)
      · exact fillsIn_setEqualValue (Eq.refl pointer) h
      · cases pointer <;> rfl

theorem getValues_returns (pointer : Nat) (columns : List Nat) (records : List RecAttr) :
    (getValues pointer columns records).Returns (fun trace result => created trace = []
      ∧ ∀ all ∈ result, ∃ more, all = records ++ more
          ∧ recorded trace = more.map (fun record => (pointer, record))) := by
  induction columns generalizing records with
  | nil =>
    refine Prog.returns_pure ⟨rfl, fun all hall => ⟨[], ?_, rfl⟩⟩
    rw [List.append_nil]
    exact (Option.some.inj hall).symm
  | cons i columns ih =>
    refine Prog.ensures_call.mpr (fun record => ?_)
    cases record with
    | none => exact Prog.returns_pure ⟨rfl, fun _ h => nomatch h⟩
    | some record =>
      refine (ih (records ++ [record])).mono ?_
      rintro trace result ⟨hcreated, hrecords⟩
      refine ⟨hcreated, fun all hall => ?_⟩
      obtain ⟨more, hmore, hrecorded⟩ := hrecords all hall
      refine ⟨record :: more, ?_, congrArg ((pointer, record) :: ·) hrecorded⟩
      rw [hmore, List.append_assoc, List.singleton_append]

/-- The records of a `GET` are those of its operation, and nothing is made
for them. -/
theorem askRecords_returns (noOfColumns : Nat) (ndbGetOperation : NdbOperation) :
    (askRecords noOfColumns (some ndbGetOperation)).Returns (fun trace result =>
      ∀ get ∈ result, get.1 = ndbGetOperation ∧ created trace = []
        ∧ recorded trace = get.2.map (fun record => (ndbGetOperation.pointer, record))) := by
  refine (getValues_returns ndbGetOperation.pointer (List.range noOfColumns) []).bind ?_
  rintro trace records ⟨hcreated, hrecords⟩
  cases records with
  | none => exact Prog.returns_pure (fun _ h => nomatch h)
  | some records =>
    obtain ⟨more, rfl, hrecorded⟩ := hrecords records rfl
    refine Prog.returns_pure (fun get hget => ?_)
    obtain rfl := Option.some.inj hget
    rw [List.append_nil]
    exact ⟨rfl, hcreated, hrecorded⟩

/-! ## The columns a `GET` compares -/

/-- **A condition names no column**: the run has found a table for the store
of the `GET` that does not have a column of that name. -/
def LacksColumn : Message → Trace → Prop
  | .get operation, trace => ∃ storeInfo ∈ operation.storeInfo.head?, ∃ table,
      Finds storeInfo.storeName table trace
        ∧ ∃ column ∈ operation.value, table.getColumn (cStr column.name) = none
  | _, _ => False

theorem LacksColumn.mono {message : Message} {trace trace' : Trace}
    (h : LacksColumn message trace) (hsub : trace ⊆ trace') : LacksColumn message trace' := by
  cases message with
  | get operation =>
    obtain ⟨storeInfo, hs, table, hfinds, hcolumn⟩ := h
    exact ⟨storeInfo, hs, table, hfinds.imp (fun hm => hsub hm) (fun hm => hsub hm), hcolumn⟩
  | _ => exact h.elim

theorem LacksColumn.append {message : Message} {front : Trace} (rest : Trace)
    (h : LacksColumn message front) : LacksColumn message (front ++ rest) :=
  h.mono (List.subset_append_left front rest)

theorem makes_executeGet {operation : GetOperation} (hs : operation.storeInfo ≠ [])
    (transaction : Nat) :
    Prog.ReturnsUnless (LacksColumn (.get operation)) (executeGet operation transaction)
      (fun trace result => ∀ get ∈ result, Makes transaction get.1.pointer get.2 trace) := by
  obtain ⟨storeInfo, rest, hstore⟩ := List.exists_cons_of_ne_nil hs
  unfold executeGet
  rw [hstore]
  refine Prog.ReturnsUnless.bind (p := tableInfoOf _ _) (fun _ rest h => h.append rest)
    (tableInfoOf_returns storeInfo.storeName).unless ?_
  rintro front found ⟨hlookup, hfinds⟩
  obtain ⟨hcreated, hrecorded⟩ := created_of_isLookup hlookup
  cases found with
  | none => exact (Prog.returns_pure (fun _ h => nomatch h)).unless
  | some tableInfo =>
    by_cases hknown : ∀ column ∈ operation.value,
        tableInfo.getColumn (cStr column.name) ≠ none
    · refine Prog.Returns.unless
        ((makesSome_accessPath hknown storeInfo.storeName transaction).bind ?_)
      intro middle path hpath
      cases path with
      | none => exact Prog.returns_pure (fun _ h => nomatch h)
      | some ndbGetOperation =>
        obtain ⟨hmade, hnone⟩ := hpath ndbGetOperation rfl
        refine (askRecords_returns tableInfo.getNoOfColumns ndbGetOperation).mono ?_
        intro last result hrecords get hget
        obtain ⟨hoperation, hlast, hmore⟩ := hrecords get hget
        rw [hoperation]
        constructor
        · rw [created_append, created_append, hcreated, hmade, hlast]
          rfl
        · rw [recorded_append, recorded_append, hrecorded, hnone, hmore]
          rfl
    · -- whatever follows, the table has been found
      push Not at hknown
      refine fun trace o _ => Or.inl ⟨storeInfo, by rw [hstore]; rfl, tableInfo, ?_, hknown⟩
      exact (hfinds tableInfo rfl).imp (List.mem_append_left trace) (List.mem_append_left trace)

/-! ## Adding the operation of a message -/

/-- The key columns of a manipulation operation. -/
def Message.primaryKey : Message → List ColumnValue
  | .set operation => operation.primaryKey
  | .delete operation => operation.primaryKey
  | .get operation => operation.primaryKey
  | _ => []

/-- What the branch of a message does with an open transaction. -/
def addOperation : Message → Nat → Exec (Option OperationState)
  | .set operation, transaction => do
    let newOperation ← executeSet operation transaction
    return newOperation.map (fun o => ⟨.set, o, []⟩)
  | .delete operation, transaction => do
    let newOperation ← executeDelete operation transaction
    return newOperation.map (fun o => ⟨.delete, o, []⟩)
  | .get operation, transaction => do
    let newOperation ← executeGet operation transaction
    return newOperation.map (fun o => ⟨.get, o.1, o.2⟩)
  | _, _ => return none

/-- The same with a transaction that may not have been started. -/
def addTo (message : Message) : Option Nat → Exec (Option Nat × Option OperationState)
  | none => return (none, none)
  | some transaction => do
    let newOperation ← addOperation message transaction
    return (some transaction, newOperation)

/-- The branch of a message that names a store. -/
theorem executeManipulation_eq {message : Message} (hm : message.isManipulation = true)
    {storeInfo : StoreInfo} {rest : List StoreInfo}
    (hs : message.storeInfos = storeInfo :: rest) (transaction : Option Nat) :
    executeManipulation message transaction
      = openTransaction transaction message.primaryKey storeInfo.storeName
          >>= addTo message := by
  have hmanipulate : ∀ (stores : List StoreInfo) (primaryKey : List ColumnValue)
      (add : Nat → Exec (Option OperationState)), stores = storeInfo :: rest →
      addOperation message = add → manipulate stores primaryKey transaction add
        = openTransaction transaction primaryKey storeInfo.storeName >>= addTo message := by
    rintro _ primaryKey _ rfl rfl
    refine congrArg (Bind.bind (openTransaction transaction primaryKey storeInfo.storeName)) ?_
    funext started
    cases started <;> rfl
  cases message with
  | set operation => exact hmanipulate _ _ _ hs rfl
  | delete operation => exact hmanipulate _ _ _ hs rfl
  | get operation => exact hmanipulate _ _ _ hs rfl
  | _ => exact absurd hm Bool.false_ne_true

/-- **What is added for a message**: an operation that does what the message
asks for, the only one that was made, with the records that were asked for
of it. -/
structure AddedBy (transaction : Nat) (message : Message) (trace : Trace)
    (operation : OperationState) : Prop where
  adds : Adds message operation
  adding : ∀ e ∈ trace, e.1.isAdding = true
  makes : Makes transaction operation.operation.pointer operation.columnValues trace

theorem adding_addOperation (message : Message) (transaction : Nat) :
    (addOperation message transaction).Within (fun c => c.isAdding = true)
      (fun _ => True) := by
  have hbuilds : ∀ {α : Type} {p : Exec α}, Builds p (fun _ => True) →
      p.Within (fun c => c.isAdding = true) (fun _ => True) :=
    fun hp => hp.mono (fun _ => Call.isAdding_of_isBuilding) (fun _ hf => hf)
  cases message with
  | set operation =>
    exact (hbuilds (builds_executeSet _ _ (fun _ => trivial))).bind (fun _ => trivial)
  | delete operation =>
    exact (hbuilds (builds_executeDelete _ _ (fun _ => trivial))).bind (fun _ => trivial)
  | get operation =>
    exact (within_executeGet (fun _ => Call.isAdding_of_isLookup)
      (fun _ => Call.isAdding_of_isBuilding) _ _ (fun _ => trivial) (fun _ => trivial)).bind
        (fun _ => trivial)
  | _ => trivial

theorem makes_addOperation {message : Message} (hm : message.isManipulation = true)
    (hs : message.storeInfos ≠ []) (transaction : Nat) :
    Prog.ReturnsUnless (LacksColumn message) (addOperation message transaction)
      (fun trace result => ∀ operation ∈ result,
        Makes transaction operation.operation.pointer operation.columnValues trace) := by
  cases message with
  | set operation =>
    refine Prog.Returns.unless ((makesSome_executeSet hs transaction).map ?_)
    rintro trace _ h _ hmem
    obtain ⟨o, ho, rfl⟩ := Option.map_eq_some_iff.mp hmem
    exact h o ho
  | delete operation =>
    refine Prog.Returns.unless ((makesSome_executeDelete hs transaction).map ?_)
    rintro trace _ h _ hmem
    obtain ⟨o, ho, rfl⟩ := Option.map_eq_some_iff.mp hmem
    exact h o ho
  | get operation =>
    refine Prog.ReturnsUnless.bind (fun _ rest h => h.append rest)
      (makes_executeGet hs transaction) ?_
    refine fun front result h => Prog.Returns.unless (Prog.returns_pure ?_)
    rintro _ hmem
    obtain ⟨o, ho, rfl⟩ := Option.map_eq_some_iff.mp hmem
    rw [List.append_nil]
    exact h o ho
  | _ => exact absurd hm Bool.false_ne_true

/-- **The branch of a message, with an open transaction.** -/
theorem executeManipulation_opened {message : Message} (hm : message.isManipulation = true)
    (hs : message.storeInfos ≠ []) (transaction : Nat) :
    Prog.ReturnsUnless (LacksColumn message) (executeManipulation message (some transaction))
      (fun trace r => (∀ e ∈ trace, e.1.isAdding = true) ∧ r.1 = some transaction
        ∧ ∀ operation ∈ r.2, AddedBy transaction message trace operation) := by
  obtain ⟨storeInfo, rest, hstore⟩ := List.exists_cons_of_ne_nil hs
  have hyields := (yields_executeManipulation message (some transaction)).ensures
  rw [executeManipulation_eq hm hstore] at hyields ⊢
  have hmakes : Prog.ReturnsUnless (LacksColumn message)
      (openTransaction (some transaction) message.primaryKey storeInfo.storeName
        >>= addTo message)
      (fun trace r => (∀ e ∈ trace, e.1.isAdding = true) ∧ r.1 = some transaction
        ∧ ∀ operation ∈ r.2,
            Makes transaction operation.operation.pointer operation.columnValues trace) := by
    refine Prog.ReturnsUnless.bind (p := addOperation _ _) (fun _ rest h => h.append rest)
      ((makes_addOperation hm hs transaction).and_ensures
        (adding_addOperation message transaction).ensures) ?_
    rintro front newOperation ⟨hmakes, hadding, -⟩
    refine Prog.Returns.unless (Prog.returns_pure ?_)
    rw [List.append_nil]
    exact ⟨hadding, rfl, hmakes⟩
  refine (hmakes.and_ensures hyields).mono (fun _ h => h) ?_
  rintro trace r ⟨⟨hadding, htransaction, hmakes⟩, hadds⟩
  exact ⟨hadding, htransaction, fun operation hmem =>
    ⟨(hadds r rfl operation hmem).2, hadding, hmakes operation hmem⟩⟩

/-! ## The two outcomes -/

/-- **The start of a transaction**, behind the lookups for it. -/
def Starts (transaction : Nat) (trace : Trace) : Prop :=
  ∃ lookups table hint, (∀ e ∈ lookups, e.1.isLookup = true)
    ∧ trace = lookups ++ [(⟨.startTransaction table hint, some transaction⟩ : Event Answer)]

/-- **One operation per message**, in the order of the messages. -/
inductive AddedAll (transaction : Nat) :
    List Message → Trace → List OperationState → Prop where
  | nil : AddedAll transaction [] [] []
  | cons {message : Message} {messages : List Message} {front rest : Trace}
      {operation : OperationState} {operations : List OperationState}
      (head : AddedBy transaction message front operation)
      (tail : AddedAll transaction messages rest operations) :
      AddedAll transaction (message :: messages) (front ++ rest) (operation :: operations)

variable (P : Protobuf)

/-- **The callback and its reply**: an error if the commit has failed, and
otherwise the results of all operations, of the types of the messages. -/
inductive Concludes (messages : List Message) (state : NdbTransactionState) : Trace → Prop where
  | failed (ndbError : NdbError) :
      Concludes messages state [⟨.callback state, ReturnCode.failed⟩,
        ⟨.getNdbError state.transaction, ndbError⟩, ⟨.close state.transaction, ()⟩,
        ⟨.send state.identifier (replyBytes P
          (makeResultForError state.transactionID ndbError.message ndbError.code)), ()⟩]
  | committed {reads : Trace} {results : List OperationResult}
      (hresults : ResultsOf state.operations reads results)
      (htypes : results.map (·.type) = messages.map getFrameType) :
      Concludes messages state (⟨.callback state, ReturnCode.ok⟩ :: (reads
        ++ [⟨.close state.transaction, ()⟩, ⟨.send state.identifier
          (replyBytes P { makeResult state.transactionID with result := results }), ()⟩]))

/-- **A tuple is rejected**, with these transactions open before it: nothing
is handed over to NDB, what is open is closed, and the one reply is an
error. -/
structure Rejected (messagesTuple : FrameMessagesTuple) (opened : List Nat) (trace : Trace) :
    Prop where
  prepared_eq : prepared trace = []
  calledBack_eq : calledBack trace = []
  closed_eq : closed trace = opened ++ started trace
  replies_eq : ∃ description errorCode, replies trace = [(messagesTuple.identifier,
    replyBytes P (makeResultForError messagesTuple.transactionID description errorCode))]

/-- What is to come when the transaction is open and has some operations
already: the others are added, all are handed over, and answered. -/
def Commits (messagesTuple : FrameMessagesTuple) (transaction : Nat)
    (before : List OperationState) (messages : List Message) (trace : Trace) : Prop :=
  ∃ adding operations ending, AddedAll transaction messages adding operations
    ∧ Concludes P messagesTuple.messages ⟨transaction, messagesTuple.transactionID,
        messagesTuple.identifier, before ++ operations⟩ ending
    ∧ trace = adding ++ (⟨.executeAsynchPrepare ⟨transaction, messagesTuple.transactionID,
        messagesTuple.identifier, before ++ operations⟩, ()⟩ : Event Answer) :: ending

/-- **A tuple is carried out**: one transaction is started, gets one
operation per message, is prepared, and answered. -/
def Carried (messagesTuple : FrameMessagesTuple) (trace : Trace) : Prop :=
  ∃ transaction opening rest, Starts transaction opening
    ∧ Commits P messagesTuple transaction [] messagesTuple.messages rest
    ∧ trace = opening ++ rest

section Traces

variable {P} {front rest : Trace}

/-- **A trace that is in no book**: no transaction is started or closed in it,
none is prepared or called back, and no reply is made. -/
structure Unbooked (trace : Trace) : Prop where
  started_eq : started trace = []
  closed_eq : closed trace = []
  prepared_eq : prepared trace = []
  calledBack_eq : calledBack trace = []
  replies_eq : replies trace = []

theorem unbooked_of_isAdding {trace : Trace} (h : ∀ e ∈ trace, e.1.isAdding = true) :
    Unbooked trace := by
  refine ⟨List.flatMap_eq_nil_iff.mpr (fun e he => ?_),
    List.flatMap_eq_nil_iff.mpr (fun e he => ?_), List.flatMap_eq_nil_iff.mpr (fun e he => ?_),
    List.flatMap_eq_nil_iff.mpr (fun e he => ?_), List.filterMap_eq_nil_iff.mpr (fun e he => ?_)⟩
  all_goals
    obtain ⟨c, r⟩ := e
    have hc := h _ he
    cases c <;> first | rfl | exact absurd hc Bool.false_ne_true

theorem Unbooked.append (hfront : Unbooked front) (hrest : Unbooked rest) :
    Unbooked (front ++ rest) := by
  refine ⟨?_, ?_, ?_, ?_, ?_⟩
  · rw [started_append, hfront.started_eq, hrest.started_eq, List.append_nil]
  · rw [closed_append, hfront.closed_eq, hrest.closed_eq, List.append_nil]
  · rw [prepared_append, hfront.prepared_eq, hrest.prepared_eq, List.append_nil]
  · rw [calledBack_append, hfront.calledBack_eq, hrest.calledBack_eq, List.append_nil]
  · rw [replies_append, hfront.replies_eq, hrest.replies_eq, List.append_nil]

theorem Rejected.append {messagesTuple : FrameMessagesTuple} {opened : List Nat}
    (h : Rejected P messagesTuple opened rest) (hfront : Unbooked front) :
    Rejected P messagesTuple opened (front ++ rest) := by
  obtain ⟨description, errorCode, hreply⟩ := h.replies_eq
  refine ⟨?_, ?_, ?_, description, errorCode, ?_⟩
  · rw [prepared_append, hfront.prepared_eq, h.prepared_eq, List.append_nil]
  · rw [calledBack_append, hfront.calledBack_eq, h.calledBack_eq, List.append_nil]
  · rw [closed_append, hfront.closed_eq, started_append, hfront.started_eq, List.nil_append,
      List.nil_append, h.closed_eq]
  · rw [replies_append, hfront.replies_eq, List.nil_append, hreply]

/-- With the start of the transaction before it. -/
theorem Rejected.starts {messagesTuple : FrameMessagesTuple} {transaction : Nat}
    (h : Rejected P messagesTuple [transaction] rest) (hfront : Starts transaction front) :
    Rejected P messagesTuple [] (front ++ rest) := by
  obtain ⟨lookups, table, hint, hlookups, rfl⟩ := hfront
  have hadding : ∀ e ∈ lookups, e.1.isAdding = true :=
    fun e he => Call.isAdding_of_isLookup (hlookups e he)
  rw [List.append_assoc]
  refine Rejected.append ?_ (unbooked_of_isAdding hadding)
  exact ⟨h.prepared_eq, h.calledBack_eq, h.closed_eq, h.replies_eq⟩

/-- What is carried out has been prepared, so that no tuple is both. -/
theorem Carried.not_rejected {messagesTuple : FrameMessagesTuple} {trace : Trace}
    (h : Carried P messagesTuple trace) : ¬ Rejected P messagesTuple [] trace := by
  obtain ⟨transaction, opening, rest, -, ⟨adding, operations, ending, -, -, rfl⟩, rfl⟩ := h
  intro hrejected
  have hprepared := hrejected.prepared_eq
  rw [prepared_append, prepared_append] at hprepared
  have hnil := (List.append_eq_nil_iff.mp (List.append_eq_nil_iff.mp hprepared).2).2
  exact absurd hnil (List.cons_ne_nil _ _)

end Traces

/-! ## The loop -/

/-- The answer to an operation that could not be added. -/
theorem reject_returns (messagesTuple : FrameMessagesTuple) (transaction : Option Nat) :
    (failureResult messagesTuple.transactionID transaction >>= fun result =>
      replyWithResult P result messagesTuple.identifier).Returns
        (fun trace _ => Rejected P messagesTuple transaction.toList trace) := by
  cases transaction with
  | none =>
    refine Prog.ensures_call.mpr (fun _ => Prog.returns_pure ⟨rfl, rfl, rfl, ?_⟩)
    exact ⟨_, _, rfl⟩
  | some transaction =>
    refine Prog.ensures_call.mpr (fun ndbError => Prog.ensures_call.mpr (fun _ => ?_))
    refine Prog.ensures_call.mpr (fun _ => Prog.returns_pure ⟨rfl, rfl, rfl, ?_⟩)
    exact ⟨_, _, rfl⟩

/-- **One turn of the loop, with an open transaction.** -/
theorem executeMessage_opened (messagesTuple : FrameMessagesTuple) {message : Message}
    (hm : message.isManipulation = true) (hs : message.storeInfos ≠ []) (transaction : Nat)
    (before : List OperationState) :
    Prog.ReturnsUnless (LacksColumn message)
      (executeMessage P messagesTuple ⟨some transaction, before⟩ message) (fun trace next =>
        next = none ∧ Rejected P messagesTuple [transaction] trace
          ∨ ∃ operation, next = some ⟨some transaction, before ++ [operation]⟩
              ∧ AddedBy transaction message trace operation) := by
  unfold executeMessage
  rw [Message.isDefinitionFrame_of_isManipulation hm, if_neg Bool.false_ne_true]
  refine Prog.ReturnsUnless.bind (fun _ rest h => h.append rest)
    (executeManipulation_opened hm hs transaction) ?_
  rintro front ⟨_, newOperation⟩ ⟨hadding, rfl, hadded⟩
  cases newOperation with
  | some operation =>
    refine Prog.Returns.unless (Prog.returns_pure (Or.inr ⟨operation, rfl, ?_⟩))
    rw [List.append_nil]
    exact hadded operation rfl
  | none =>
    show Prog.ReturnsUnless _ (failureResult messagesTuple.transactionID (some transaction)
      >>= fun result => replyWithResult P result messagesTuple.identifier
      >>= fun _ => pure none) _
    rw [← Prog.bind_assoc]
    refine Prog.Returns.unless ((reject_returns P messagesTuple (some transaction)).map ?_)
    exact fun rest _ hrejected =>
      Or.inl ⟨rfl, hrejected.append (unbooked_of_isAdding hadding)⟩

/-- **The callback** of a transaction whose operations are those of the
messages, which comes to its end unless a row that is read cannot be shown. -/
theorem complete_concludes (messages : List Message) (state : NdbTransactionState)
    (htypes : state.operations.map (·.type) = messages.map getFrameType) :
    Prog.ReturnsUnless (MeetsUnknown anyStore) (complete P state)
      (fun trace _ => Concludes P messages state trace) := by
  refine Prog.ensures_call.mpr (fun result => ?_)
  cases result with
  | failed =>
    refine Prog.ensures_call.mpr (fun ndbError => Prog.ensures_call.mpr (fun _ => ?_))
    refine Prog.ensures_call.mpr (fun _ => ?_)
    exact Prog.ensures_pure.mpr (Or.inr ⟨_, rfl, .failed ndbError⟩)
  | ok =>
    refine (ndbExecuteCallback_ensures P state).mono ?_
    rintro trace o (⟨reads, results, rfl, hresults, rfl⟩ | ⟨-, hunknown, -⟩)
    · exact Or.inr ⟨_, rfl, .committed hresults (hresults.map_type.trans htypes)⟩
    · exact Or.inl (Or.inl hunknown)

/-- A message of a list lacks a column. -/
def SomeLacksColumn (messages : List Message) (trace : Trace) : Prop :=
  ∃ message ∈ messages, LacksColumn message trace

theorem SomeLacksColumn.append {messages : List Message} {front : Trace} (rest : Trace)
    (h : SomeLacksColumn messages front) : SomeLacksColumn messages (front ++ rest) := by
  obtain ⟨message, hmem, hlacks⟩ := h
  exact ⟨message, hmem, hlacks.append rest⟩

/-- **What keeps a tuple from its one reply**: a condition names a column
the table lacks, or a row that is read cannot be shown. -/
def Strays (messages : List Message) (trace : Trace) : Prop :=
  SomeLacksColumn messages trace ∨ MeetsUnknown anyStore trace

theorem Strays.append {messages : List Message} {front : Trace} (rest : Trace)
    (h : Strays messages front) : Strays messages (front ++ rest) :=
  h.imp (fun h => h.append rest) (fun h => h.append rest)

/-- What one message of a list has come upon. -/
theorem Strays.append_left {messages messages' : List Message} (front : Trace) {rest : Trace}
    (h : Strays messages rest) (hsub : messages ⊆ messages') :
    Strays messages' (front ++ rest) := by
  rcases h with ⟨message, hmem, hlacks⟩ | hunknown
  · exact Or.inl ⟨message, hsub hmem, hlacks.mono (List.subset_append_right _ _)⟩
  · exact Or.inr (hunknown.append_left front)

/-- **The loop from an open transaction on**: it breaks off and closes the
transaction, or it comes to its end and the transaction is committed. -/
theorem serveFrom_opened (messagesTuple : FrameMessagesTuple) {messages : List Message}
    (hm : ∀ message ∈ messages, message.isManipulation = true ∧ message.storeInfos ≠ [])
    (transaction : Nat) {before : List OperationState}
    (htypes : before.map (·.type) ++ messages.map getFrameType
      = messagesTuple.messages.map getFrameType) :
    Prog.ReturnsUnless (Strays messages)
      (serveFrom P messagesTuple messages ⟨some transaction, before⟩) (fun trace _ =>
        Rejected P messagesTuple [transaction] trace
          ∨ Commits P messagesTuple transaction before messages trace) := by
  induction messages generalizing before with
  | nil =>
    rw [List.map_nil, List.append_nil] at htypes
    unfold serveFrom
    refine Prog.ensures_call.mpr (fun _ => ?_)
    refine (complete_concludes P messagesTuple.messages _ htypes).mono ?_ ?_
    · exact fun trace hunknown => Or.inr (Or.inr hunknown)
    · refine fun ending _ hconcludes => Or.inr ⟨[], [], ending, .nil, ?_, ?_⟩
      · rw [List.append_nil]
        exact hconcludes
      · rw [List.append_nil, List.nil_append]
  | cons message messages ih =>
    obtain ⟨hmanipulation, hstore⟩ := hm message List.mem_cons_self
    have hturn : Prog.ReturnsUnless (Strays (message :: messages))
        (executeMessage P messagesTuple ⟨some transaction, before⟩ message) _ :=
      (executeMessage_opened P messagesTuple hmanipulation hstore transaction before).mono
        (fun _ h => Or.inl ⟨message, List.mem_cons_self, h⟩) (fun _ _ h => h)
    unfold serveFrom
    refine Prog.ReturnsUnless.bind (fun _ rest h => h.append rest) hturn ?_
    rintro front _ (⟨rfl, hrejected⟩ | ⟨operation, rfl, hadded⟩)
    · refine Prog.Returns.unless (Prog.returns_pure (Or.inl ?_))
      rw [List.append_nil]
      exact hrejected
    · have htypes' : (before ++ [operation]).map (·.type) ++ messages.map getFrameType
          = messagesTuple.messages.map getFrameType := by
        rw [← htypes, List.map_append, List.append_assoc, List.map_cons, List.map_cons,
          hadded.adds.type_eq]
        rfl
      refine (ih (fun m hmem => hm m (List.mem_cons_of_mem _ hmem)) htypes').mono ?_ ?_
      · exact fun rest hstrays => hstrays.append_left front (List.subset_cons_self _ _)
      · rintro rest _ (hrejected | ⟨adding, operations, ending, hall, hconcludes, rfl⟩)
        · exact Or.inl (hrejected.append (unbooked_of_isAdding hadded.adding))
        · rw [List.append_assoc, List.singleton_append] at hconcludes ⊢
          exact Or.inr ⟨front ++ adding, operation :: operations, ending, .cons hadded hall,
            hconcludes, (List.append_assoc _ _ _).symm⟩

/-! ## The start of the transaction -/

/-- The start of a transaction, or the failure to start one. -/
def Begins : Option Nat → Trace → Prop
  | some transaction, trace => Starts transaction trace
  | none, trace => Unbooked trace

theorem startTransaction_returns (columns : List ColumnValue) (storeName : Bytes) :
    (startTransaction columns storeName).Returns
      (fun trace started => Begins started trace) := by
  refine ((looksUp_tableInfoOf _ _).returns (Prog.yields_true _)).bind ?_
  rintro front tableInfo ⟨hlookup, -⟩
  have hunbooked : Unbooked front :=
    unbooked_of_isAdding (fun e he => Call.isAdding_of_isLookup (hlookup e he))
  have hstart : ∀ table hint, (perform (.startTransaction table hint)).Returns
      (fun trace started => Begins started (front ++ trace)) := by
    refine fun table hint => Prog.ensures_perform.mpr (fun started => ⟨started, rfl, ?_⟩)
    cases started with
    | some transaction => exact ⟨front, table, hint, hlookup, rfl⟩
    | none => exact Unbooked.append hunbooked ⟨rfl, rfl, rfl, rfl, rfl⟩
  cases tableInfo with
  | none =>
    refine Prog.returns_pure ?_
    rw [List.append_nil]
    exact hunbooked
  | some table =>
    dsimp only
    split
    · rw [getHint_newHint]
      exact hstart table _
    · exact hstart table []

/-- What is to come after the attempt to start a transaction. -/
def serveStarted (messagesTuple : FrameMessagesTuple) : Option Nat → Exec Unit
  | none => do
    let result ← failureResult messagesTuple.transactionID none
    let _ ← replyWithResult P result messagesTuple.identifier
    return ()
  | some transaction => serveFrom P messagesTuple messagesTuple.messages ⟨some transaction, []⟩

/-- A tuple that begins with a manipulation operation begins with its
transaction. -/
theorem serve_eq_start {messagesTuple : FrameMessagesTuple} {message : Message}
    {messages : List Message} (hmessages : messagesTuple.messages = message :: messages)
    (hm : message.isManipulation = true) {storeInfo : StoreInfo} {rest : List StoreInfo}
    (hs : message.storeInfos = storeInfo :: rest) :
    serve P messagesTuple
      = startTransaction message.primaryKey storeInfo.storeName
          >>= serveStarted P messagesTuple := by
  have hd := Message.isDefinitionFrame_of_isManipulation hm
  have hopened : ∀ transaction, executeManipulation message transaction
      = openTransaction transaction message.primaryKey storeInfo.storeName >>= addTo message :=
    executeManipulation_eq hm hs
  rw [serve_eq, hmessages, serveFrom, executeMessage, hd, if_neg Bool.false_ne_true, hopened,
    Prog.bind_assoc, Prog.bind_assoc]
  refine congrArg (Bind.bind (startTransaction message.primaryKey storeInfo.storeName)) ?_
  funext started
  cases started with
  | none => rfl
  | some transaction =>
    show _ = serveFrom P messagesTuple messagesTuple.messages ⟨some transaction, []⟩
    rw [hmessages, serveFrom, executeMessage, hd, if_neg Bool.false_ne_true, hopened,
      Prog.bind_assoc, Prog.bind_assoc]
    rfl

/-- **A tuple of manipulation operations is either rejected or carried out**,
unless something has kept it from its end. -/
theorem serve_returnsUnless {messagesTuple : FrameMessagesTuple}
    (hne : messagesTuple.messages ≠ [])
    (hm : ∀ message ∈ messagesTuple.messages,
      message.isManipulation = true ∧ message.storeInfos ≠ []) :
    Prog.ReturnsUnless (Strays messagesTuple.messages) (serve P messagesTuple) (fun trace _ =>
      Rejected P messagesTuple [] trace ∨ Carried P messagesTuple trace) := by
  obtain ⟨message, messages, hmessages⟩ := List.exists_cons_of_ne_nil hne
  obtain ⟨hmanipulation, hstore⟩ := hm message (hmessages ▸ List.mem_cons_self)
  obtain ⟨storeInfo, rest, hs⟩ := List.exists_cons_of_ne_nil hstore
  rw [serve_eq_start P hmessages hmanipulation hs]
  refine (startTransaction_returns message.primaryKey storeInfo.storeName).bind ?_
  rintro front (_ | transaction) hstart
  · show (failureResult messagesTuple.transactionID none >>= fun result =>
      replyWithResult P result messagesTuple.identifier >>= fun _ => pure ()).Ensures _
    rw [← Prog.bind_assoc]
    refine Prog.Returns.unless ((reject_returns P messagesTuple none).map ?_)
    exact fun trace _ hrejected => Or.inl (hrejected.append hstart)
  · refine (@serveFrom_opened P messagesTuple _ hm transaction [] rfl).mono ?_ ?_
    · exact fun trace hstrays => hstrays.append_left front (List.Subset.refl _)
    · rintro trace _ (hrejected | hcommits)
      · exact Or.inl (hrejected.starts hstart)
      · exact Or.inr ⟨transaction, front, trace, hstart, hcommits, rfl⟩

/-- **A tuple of manipulation operations is either rejected or carried out,
and never both, exactly when every row that is read for it has columns of the
types the protocol has**, as long as its conditions name columns of the
tables that are found, and whatever NDB answers. -/
theorem serve_rejected_or_carried_iff {messagesTuple : FrameMessagesTuple}
    (hne : messagesTuple.messages ≠ [])
    (hm : ∀ message ∈ messagesTuple.messages,
      message.isManipulation = true ∧ message.storeInfos ≠ []) :
    (serve P messagesTuple).Ensures (fun trace o =>
      (∀ message ∈ messagesTuple.messages, ¬ LacksColumn message trace) →
        ((o = .ok ()
            ∧ Xor (Rejected P messagesTuple [] trace) (Carried P messagesTuple trace))
          ↔ ¬ MeetsUnknown anyStore trace)) := by
  intro trace o hrun hknown
  constructor
  · rintro ⟨ho, -⟩ hunknown
    have hmeets := serveFrom_ensures_meets P messagesTuple messagesTuple.messages ⟨none, []⟩
    rw [← serve_eq] at hmeets
    have hfault : o = .error .columnType := (hmeets trace o hrun).mp hunknown
    exact absurd (ho.symm.trans hfault) (by simp)
  · intro hshown
    obtain (⟨m, hmem, hlacks⟩ | hunknown) | ⟨u, ho, hend⟩ :=
      serve_returnsUnless P hne hm trace o hrun
    · exact absurd hlacks (hknown m hmem)
    · exact absurd hunknown hshown
    · refine ⟨ho, ?_⟩
      -- what is carried out is not rejected
      rcases hend with hrejected | hcarried
      · exact Or.inl ⟨hrejected, fun hcarried => hcarried.not_rejected hrejected⟩
      · exact Or.inr ⟨hcarried, hcarried.not_rejected⟩

/-- Everything succeeds, and a scan has one row, whose columns are of this
type. -/
def scanning (type : Option ColumnType) : (c : Call) → Answer c
  | .nextResult _ => (⟨[fun _ => ⟨ascii "v", type, [1, 0, 0, 0]⟩], .endOfData⟩ : Cursor)
  | c => succeeding (Table.ofNames [ascii "v"]) c

/-- A value of the column `v`. -/
def shownValue : ColumnValue := ⟨ascii "v", some .int32, none, none, [1, 0, 0, 0]⟩

/-- A `SET` and a `GET` with a condition on `v`. -/
def setThenScan : FrameMessagesTuple :=
  ⟨ascii "x", ascii "a",
    [.set ⟨[⟨ascii "t"⟩], [], [shownValue]⟩, .get ⟨[⟨ascii "t"⟩], [], [shownValue]⟩]⟩

/-- The tuple is one that the loop can come through, and no condition of it
is on a column the table lacks. -/
theorem setThenScan_known (type : Option ColumnType) :
    (∀ message ∈ setThenScan.messages, message.isManipulation = true ∧ message.storeInfos ≠ [])
      ∧ ∀ message ∈ setThenScan.messages,
        ¬ LacksColumn message ((serve wireFormat setThenScan).run (scanning type)).1 := by
  refine ⟨by decide, fun message hmem hlacks => ?_⟩
  rcases List.mem_cons.mp hmem with rfl | hmem
  · exact hlacks
  · rw [List.mem_singleton.mp hmem] at hlacks
    obtain ⟨storeInfo, -, table, hfinds, column, hcolumn, hnone⟩ := hlacks
    -- every table that is found is the one with the column
    have htable : table = Table.ofNames [ascii "v"] := by
      rcases hfinds with h | h
      · exact Option.some.inj (Prog.answer_of_mem_run _ _ h)
      · exact Option.some.inj (Prog.answer_of_mem_run _ _ h)
    rw [List.mem_singleton.mp hcolumn, htable] at hnone
    exact absurd hnone (by decide)

/-- **The tuple is carried out** where the row is one of the protocol's types:
the `SET` has no rows and the `GET` has this one. -/
theorem serve_rejected_or_carried_setThenScan :
    let run := (serve wireFormat setThenScan).run (scanning (some .int32))
    run.2 = .ok () ∧ Carried wireFormat setThenScan run.1
      ∧ replies run.1 = [(ascii "a", replyBytes wireFormat { makeResult (ascii "x") with
          result := [⟨[], .set⟩, ⟨[⟨[shownValue, shownValue]⟩], .get⟩] })] := by
  intro run
  obtain ⟨hmanipulations, hknown⟩ := setThenScan_known (some .int32)
  have hshown : ¬ MeetsUnknown anyStore run.1 := by decide
  obtain ⟨ho, hxor⟩ := (serve_rejected_or_carried_iff wireFormat (List.cons_ne_nil _ _)
    hmanipulations run.1 run.2 (Prog.runs_run _ _) hknown).mpr hshown
  have hcarried : Carried wireFormat setThenScan run.1 := by
    rcases hxor with ⟨hrejected, -⟩ | ⟨hcarried, -⟩
    · exact absurd hrejected.prepared_eq (by decide)
    · exact hcarried
  exact ⟨ho, hcarried, rfl⟩

/-- **A row that cannot be shown**: the column of the table is of a type the
protocol does not have, and the tuple is neither rejected nor carried out. -/
theorem not_serve_rejected_or_carried_unknown :
    ¬ (serve wireFormat setThenScan).Ensures (fun trace o =>
      (∀ message ∈ setThenScan.messages, ¬ LacksColumn message trace) →
        o = .ok () ∧ Xor (Rejected wireFormat setThenScan [] trace)
          (Carried wireFormat setThenScan trace)) := by
  intro h
  have hrun := Prog.runs_run (scanning none) (serve wireFormat setThenScan)
  obtain ⟨ho, -⟩ := h _ _ hrun (setThenScan_known none).2
  exact absurd ho (by decide)

end VoloDB
