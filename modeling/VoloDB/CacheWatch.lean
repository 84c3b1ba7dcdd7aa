import VoloDB.ExecutorRuns
import VoloDB.Monitor

/-!
# What an executor does with the cache

The cache of table descriptions is shared by all executors. Each of its
functions takes a lock of its own, and what an executor does with the cache
is made of such calls: it reads; what it does not find it looks up in the
dictionary and then inserts; and after a store has been dropped it erases
the entry.

`cacheMonitor` watches one executor. A table is inserted right after it has
been looked up, under the name it was looked up by, and an entry is erased
only after the executor has dropped the store. All programs of an executor
keep to this, down to `steady_executeBatch`.
-/

namespace VoloDB

open Interaction FrameUtils

/-- Calls that neither look up nor insert a table, nor drop or erase
one. -/
def Call.leavesCache : Call → Bool
  | .query _ | .getTable _ | .cacheInsert _ _ | .cacheErase _ => false
  | _ => true

theorem Call.leavesCache_of_isOperation {c : Call} (h : c.isOperation = true) :
    c.leavesCache = true := by
  cases c <;> first | rfl | exact absurd h Bool.false_ne_true

namespace NDBMessageExecutor

/-! ## The monitor -/

/-- **What an executor has in hand.** -/
structure Watch where
  /-- A table it has looked up and not inserted yet, with its name. -/
  lookup : Option (Bytes × Table)
  /-- The last query that has succeeded. -/
  done : Option Bytes

/-- Before the first call. -/
def Watch.init : Watch := ⟨none, none⟩

/-- The calls an executor may make. With a table in hand, it inserts the
table. -/
def Watch.allows (w : Watch) : Call → Prop
  | .cacheInsert storeName table => w.lookup = some (cStr storeName, table)
  | .cacheErase storeName =>
    w.lookup = none ∧ w.done = some (cStr (ascii "DROP TABLE " ++ storeName))
  | _ => w.lookup = none

/-- What it has in hand after a call. -/
def Watch.next (w : Watch) : (c : Call) → Answer c → Watch
  | .getTable storeName, some table => { w with lookup := some (storeName, table) }
  | .cacheInsert _ _, _ => { w with lookup := none }
  | .query text, none => { w with done := some text }
  | _, _ => w

/-- **The monitor of the cache.** -/
def cacheMonitor : Monitor Call Answer Watch where
  allows := Watch.allows
  next := Watch.next

/-- **The program keeps to the monitor** wherever there is no table in
hand, and ends where there is none. -/
def Steady {α : Type} (p : Exec α) : Prop :=
  ∀ w : Watch, w.lookup = none → p.Conforms cacheMonitor (fun w' _ => w'.lookup = none) w

variable {α β : Type}

theorem steady_pure (a : α) : Steady (pure a : Exec α) := fun _ hw => hw

theorem steady_fault (f : Fault) : Steady (.fault f : Exec α) := fun _ _ => trivial

theorem Steady.bind {p : Exec α} {f : α → Exec β} (hp : Steady p) (hf : ∀ a, Steady (f a)) :
    Steady (p >>= f) :=
  fun w hw => (hp w hw).bind (fun w' a hw' => hf a w' hw')

/-- A call the monitor takes no notice of. -/
theorem steady_perform_bind {c : Call} (hc : c.leavesCache = true) {f : Answer c → Exec β}
    (hf : ∀ r, Steady (f r)) : Steady (perform c >>= f) := by
  intro w hw
  have hallows : w.allows c := by
    cases c <;> first | exact hw | exact absurd hc Bool.false_ne_true
  have hnext : ∀ r, w.next c r = w := by
    intro r
    cases c <;> first | rfl | exact absurd hc Bool.false_ne_true
  refine Prog.Conforms.perform_bind hallows (fun r => ?_)
  show Prog.Conforms cacheMonitor _ (w.next c r) (f r)
  rw [hnext r]
  exact hf r w hw

theorem steady_of_operates {p : Exec α} {F : Fault → Prop} (hp : Operates p F) : Steady p := by
  induction p with
  | pure a => exact steady_pure a
  | fault f => exact steady_fault f
  | call c k ih =>
    exact steady_perform_bind (Call.leavesCache_of_isOperation hp.1) (fun r => ih r (hp.2 r))

theorem steady_of_builds {p : Exec α} {F : Fault → Prop} (hp : Builds p F) : Steady p :=
  steady_of_operates (operates_of_builds hp)

/-! ## The cache -/

/-- A table that is not in the cache is looked up and inserted. -/
theorem steady_tableInfoOf (cachedName storeName : Bytes) :
    Steady (tableInfoOf cachedName storeName) := by
  refine steady_perform_bind rfl (fun cached => ?_)
  cases cached with
  | some table => exact steady_pure _
  | none =>
    intro w hw
    refine Prog.Conforms.perform_bind hw (fun found => ?_)
    cases found with
    | none => exact hw
    | some table => exact Prog.Conforms.perform_bind rfl (fun _ => rfl)

/-- **The entry of a store is erased after the store has been dropped.** -/
theorem steady_executeDropStore (operation : DropStoreOperation) (transactionID : Bytes) :
    Steady (executeDropStore operation transactionID) := by
  intro w hw
  refine Prog.Conforms.perform_bind hw (fun error => ?_)
  cases error with
  | some error => exact hw
  | none => exact Prog.Conforms.perform_bind ⟨hw, rfl⟩ (fun _ => hw)

theorem steady_runQuery (text transactionID : Bytes) : Steady (runQuery text transactionID) := by
  intro w hw
  refine Prog.Conforms.perform_bind hw (fun error => ?_)
  cases error <;> exact hw

theorem steady_executeDefinition (message : Message) (transactionID : Bytes) :
    Steady (executeDefinition message transactionID) := by
  cases message with
  | createDatabase operation => exact (steady_runQuery _ _).bind (fun _ => steady_pure _)
  | dropDatabase operation => exact (steady_runQuery _ _).bind (fun _ => steady_pure _)
  | createStore operation =>
    refine Steady.bind ?_ (fun _ => steady_pure _)
    unfold executeCreateStore
    split
    · exact steady_pure _
    · split
      · exact steady_pure _
      · exact steady_runQuery _ _
  | dropStore operation => exact (steady_executeDropStore _ _).bind (fun _ => steady_pure _)
  | _ => exact steady_pure _

/-! ## Manipulation operations -/

theorem steady_openTransaction (transaction : Option Nat) (columns : List ColumnValue)
    (storeName : Bytes) : Steady (openTransaction transaction columns storeName) := by
  cases transaction with
  | some t => exact steady_pure _
  | none =>
    refine (steady_tableInfoOf _ _).bind (fun tableInfo => ?_)
    cases tableInfo with
    | none => exact steady_pure _
    | some table =>
      dsimp only
      split
      · split
        · exact steady_fault _
        · exact steady_perform_bind rfl (fun _ => steady_pure _)
      · exact steady_perform_bind rfl (fun _ => steady_pure _)

theorem steady_executeGet (operation : GetOperation) (transaction : Nat) :
    Steady (executeGet operation transaction) := by
  unfold executeGet
  cases operation.storeInfo with
  | nil => exact steady_fault _
  | cons storeInfo rest =>
    refine (steady_tableInfoOf _ _).bind (fun tableInfo => ?_)
    cases tableInfo with
    | none => exact steady_pure _
    | some tableInfo =>
      refine (steady_of_builds (F := fun _ => True)
        (builds_accessPath _ _ _ _ (fun _ => trivial))).bind (fun path => ?_)
      cases path with
      | none => exact steady_pure _
      | some ndbGetOperation =>
        refine (steady_of_builds (F := fun _ => True) (builds_getValues _ _ _)).bind
          (fun records => ?_)
        cases records <;> exact steady_pure _

theorem steady_manipulate (storeInfo : List StoreInfo) (primaryKey : List ColumnValue)
    (transaction : Option Nat) {add : Nat → Exec (Option OperationState)}
    (hadd : ∀ t, Steady (add t)) :
    Steady (manipulate storeInfo primaryKey transaction add) := by
  unfold manipulate
  cases storeInfo with
  | nil => exact steady_fault _
  | cons store rest =>
    refine (steady_openTransaction _ _ _).bind (fun started => ?_)
    cases started with
    | none => exact steady_pure _
    | some t => exact (hadd t).bind (fun _ => steady_pure _)

theorem steady_executeManipulation (message : Message) (transaction : Option Nat) :
    Steady (executeManipulation message transaction) := by
  cases message with
  | set operation =>
    exact steady_manipulate _ _ _ (fun t => (steady_of_builds (F := fun _ => True)
      (builds_executeSet _ _ (fun _ => trivial))).bind (fun _ => steady_pure _))
  | delete operation =>
    exact steady_manipulate _ _ _ (fun t => (steady_of_builds (F := fun _ => True)
      (builds_executeDelete _ _ (fun _ => trivial))).bind (fun _ => steady_pure _))
  | get operation =>
    exact steady_manipulate _ _ _ (fun t => (steady_executeGet _ _).bind
      (fun _ => steady_pure _))
  | _ => exact steady_pure _

/-! ## Tuples -/

variable (P : Protobuf)

theorem steady_replyWithResult (result : Result) (identifier : Bytes) :
    Steady (replyWithResult P result identifier) := by
  rw [replyWithResult_eq]
  exact steady_perform_bind (c := .send identifier (replyBytes P result)) rfl
    (fun _ => steady_pure _)

theorem steady_executeMessage (messagesTuple : FrameMessagesTuple) (s : LoopState)
    (message : Message) : Steady (executeMessage P messagesTuple s message) := by
  unfold executeMessage
  split
  · exact (steady_executeDefinition _ _).bind (fun _ =>
      (steady_replyWithResult P _ _).bind (fun _ => steady_pure _))
  · refine (steady_executeManipulation _ _).bind ?_
    rintro ⟨transaction, newOperation⟩
    cases newOperation with
    | some newOperation => exact steady_pure _
    | none =>
      refine (steady_of_operates (F := fun _ => True) (operates_failureResult _ _)).bind
        (fun result => ?_)
      exact (steady_replyWithResult P _ _).bind (fun _ => steady_pure _)

theorem steady_executeMessages (messagesTuple : FrameMessagesTuple) (messages : List Message)
    (s : LoopState) : Steady (executeMessages P messagesTuple messages s) := by
  induction messages generalizing s with
  | nil => exact steady_pure _
  | cons message messages ih =>
    refine (steady_executeMessage P messagesTuple s message).bind (fun next => ?_)
    cases next with
    | none => exact steady_pure _
    | some s => exact ih s

theorem steady_execute (messagesTuple : FrameMessagesTuple) :
    Steady (execute P messagesTuple) := by
  refine (steady_executeMessages P messagesTuple _ _).bind (fun last => ?_)
  split
  · exact steady_perform_bind rfl (fun _ => steady_pure _)
  · exact steady_pure _

theorem steady_complete (state : NdbTransactionState) : Steady (complete P state) := by
  refine steady_perform_bind rfl (fun result => ?_)
  unfold ndbExecuteCallback
  cases result with
  | failed =>
    refine steady_perform_bind rfl (fun ndbError => steady_perform_bind rfl (fun _ => ?_))
    exact (steady_replyWithResult P _ _).bind (fun _ => steady_pure _)
  | ok =>
    refine (steady_of_operates (F := fun _ => True) (operates_operationResults _ trivial)).bind
      (fun results => steady_perform_bind rfl (fun _ => ?_))
    exact (steady_replyWithResult P _ _).bind (fun _ => steady_pure _)

/-! ## Batches -/

theorem steady_runCallbacks (transactions : List Nat) (pending : List NdbTransactionState) :
    Steady (runCallbacks P transactions pending) := by
  induction transactions generalizing pending with
  | nil => exact steady_pure _
  | cons transaction transactions ih =>
    unfold runCallbacks
    split
    · exact ih _
    · exact (steady_complete P _).bind (fun _ => ih _)

theorem steady_pollLoop (total completed : Nat) (pending : List NdbTransactionState)
    (polls : List (List Nat)) : Steady (pollLoop P total completed pending polls) := by
  induction polls generalizing completed pending with
  | nil =>
    unfold pollLoop
    exact steady_fault _
  | cons poll polls ih =>
    unfold pollLoop
    refine (steady_runCallbacks P poll pending).bind (fun left => ?_)
    dsimp only
    split
    · exact ih _ _
    · exact steady_pure _

theorem steady_waitForTransactionsToComplete (total : Nat)
    (pending : List NdbTransactionState) :
    Steady (waitForTransactionsToComplete P total pending) := by
  unfold waitForTransactionsToComplete
  split
  · exact steady_perform_bind rfl (fun polls => steady_pollLoop P _ _ _ polls)
  · exact steady_pure _

theorem steady_executeTuples (tuples : List FrameMessagesTuple) (s : BatchState) :
    Steady (executeTuples P tuples s) := by
  induction tuples generalizing s with
  | nil => exact steady_pure _
  | cons messagesTuple tuples ih =>
    unfold executeTuples
    refine steady_perform_bind rfl (fun _ => (steady_execute P messagesTuple).bind
      (fun result => ?_))
    cases result with
    | none => exact ih s
    | some state =>
      dsimp only
      split
      · exact (steady_waitForTransactionsToComplete P _ _).bind (fun _ => ih _)
      · exact ih _

theorem steady_executeLists (taskLists : List (List FrameMessagesTuple)) (s : BatchState) :
    Steady (executeLists P taskLists s) := by
  induction taskLists generalizing s with
  | nil => exact steady_pure _
  | cons taskList taskLists ih =>
    unfold executeLists
    exact (steady_executeTuples P taskList s).bind (fun s => ih s)

/-- **Every batch keeps to the monitor of the cache.** -/
theorem steady_executeBatch (messages : List (List FrameMessagesTuple))
    (pending : List NdbTransactionState) : Steady (executeBatch P messages pending) := by
  refine (steady_executeLists P messages ⟨0, pending⟩).bind (fun s => ?_)
  split
  · exact steady_waitForTransactionsToComplete P _ _
  · exact steady_pure _

end NDBMessageExecutor

end VoloDB
