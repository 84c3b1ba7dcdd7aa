import VoloDB.AtomicOperations
import VoloDB.Interleaving
import VoloDB.KeyValueStore

/-!
# NDB shared by the executors

The executors of a server have an `Ndb` object each, and one database. Each is
served at a `Desk`: there NDB keeps what the operations of its transactions
have been told, which of them have been prepared, for which of the tuples it
has taken, and which is the one whose callback is running. `deskContract` is
what an executor makes of this: it prepares for a tuple what the tuple asks
for, and when it replies, it says what has become of the transaction, with the
rows that it was given.

The contents of the stores are shared (`Storage`). Each operation of a prepared
transaction takes effect at one moment, of which its executor is not told: it
meets the contents as they are, and what it writes is there from then on
(`Storage.Effect`). Nothing is said about the order of these moments. By the
time of the callback all operations of a transaction that was committed have
taken effect, and of one that failed none has; and a read by a key shows the
row that was there when the read took effect. What a scan shows is left open,
since it does not take place at one moment.
-/

namespace VoloDB

open Interaction NDBMessageProcessor NDBMessageExecutor

/-! ## Desks -/

/-- **A transaction that has been prepared.** -/
structure Prepared where
  state : NdbTransactionState
  /-- The number of the tuple it is for, among those its executor has taken. -/
  number : Nat
  messagesTuple : FrameMessagesTuple
  /-- What its operations have been told, with their pointers. -/
  told : List (Nat × Told)

/-- **A transaction whose callback is running**, and the rows that have been
read in it. -/
structure Called where
  prepared : Prepared
  code : ReturnCode
  reads : List (Nat × Snapshot)

/-- **What NDB keeps for an executor.** -/
structure Desk where
  told : Nat → Told
  members : Nat → List Nat
  /-- How many tuples the executor has taken. -/
  count : Nat
  /-- The tuple it is executing. -/
  taken : Option FrameMessagesTuple
  waiting : List Prepared
  called : Option Called

namespace Desk

/-- An executor that has not done anything. -/
def empty : Desk := ⟨fun _ => .new [], fun _ => [], 0, none, [], none⟩

/-- What NDB knows of the operations. -/
def knows (C : Catalog) (s : Desk) : NdbState C := ⟨fun _ => .empty, s.told, s.members, []⟩

/-- What a transaction is when it is prepared. -/
def prepare (s : Desk) (state : NdbTransactionState) (messagesTuple : FrameMessagesTuple) :
    Prepared :=
  ⟨state, s.count, messagesTuple, (s.members state.transaction).map (fun p => (p, s.told p))⟩

/-- The transaction that is waiting with this state. -/
def find (s : Desk) (state : NdbTransactionState) : Option Prepared :=
  s.waiting.find? (fun w => w.state = state)

/-- What becomes of the books after a call. -/
def book (s : Desk) : (c : Call) → Answer c → Desk
  | .take messagesTuple, _ => { s with count := s.count + 1, taken := some messagesTuple }
  | .executeAsynchPrepare state, _ =>
    { s with
      taken := none
      waiting := s.waiting ++ s.taken.toList.map (s.prepare state) }
  | .callback state, code =>
    { s with
      waiting := s.waiting.eraseP (fun w => w.state = state)
      called := (s.find state).map (fun w => ⟨w, code, []⟩) }
  | .records pointer, snapshot =>
    { s with
      called := s.called.map (fun c => { c with reads := c.reads ++ [(pointer, snapshot)] }) }
  | .send _ _, _ => if s.called.isSome then { s with called := none } else { s with taken := none }
  | _, _ => s

/-- **The desk after a call.** -/
def next (C : Catalog) (s : Desk) (c : Call) (r : Answer c) : Desk :=
  { s.book c r with
    told := ((s.knows C).next c r).told
    members := ((s.knows C).next c r).members }

/-- What NDB may answer, as far as it does not depend on the contents. -/
def admits (C : Catalog) (s : Desk) : (c : Call) → Answer c → Prop
  | .callback _, _ => True
  | c, r => (s.knows C).admits c r

end Desk

/-- **The transaction is what the tuple asks for.** -/
structure Prepared.Faithful (C : Catalog) (w : Prepared) : Prop where
  state_of : StateOf w.messagesTuple w.state
  realizes : List.Forall₂ (Realizes C) w.messagesTuple.messages w.state.operations
  told_eq : w.told = w.state.operations.map (fun o => (o.operation.pointer, Told.of o))

/-- **The result reports what was read**: for a read by a key, the row that
shows its records. -/
def Reports (reads : List (Nat × Snapshot)) (o : OperationState) (r : OperationResult) : Prop :=
  r.type = o.type ∧ (o.type = .get → o.operation.access.isScan = false →
    ∃ snapshot shown, (o.operation.pointer, snapshot) ∈ reads ∧ r.row = [shown]
      ∧ shown.Shows o.columnValues snapshot)

/-- **The replies an executor may give.** -/
inductive Desk.MayReply (s : Desk) : Bytes → Result → Prop
  /-- An operation could not be added to the transaction of the tuple. -/
  | broken {t : FrameMessagesTuple} {result : Result} (hcalled : s.called = none)
      (htaken : s.taken = some t) (hid : result.transactionIdentifier = t.transactionID)
      (herror : result.errorCode ≠ none) : MayReply s t.identifier result
  /-- The transaction has failed. -/
  | failed {c : Called} {result : Result} (hcalled : s.called = some c) (hcode : c.code = .failed)
      (hid : result.transactionIdentifier = c.prepared.state.transactionID)
      (herror : result.errorCode ≠ none) : MayReply s c.prepared.state.identifier result
  /-- It has been committed. -/
  | committed {c : Called} {result : Result} (hcalled : s.called = some c) (hcode : c.code = .ok)
      (hid : result.transactionIdentifier = c.prepared.state.transactionID)
      (hok : result.errorCode = none)
      (hreports : List.Forall₂ (Reports c.reads) c.prepared.state.operations result.result) :
    MayReply s c.prepared.state.identifier result

/-- What an executor may do. -/
def Desk.allows (P : Protobuf) (C : Catalog) (s : Desk) : Call → Prop
  | .take _ => s.taken = none ∧ s.called = none
  | .executeAsynchPrepare state =>
    s.called = none ∧ ∃ t, s.taken = some t ∧ (s.prepare state t).Faithful C
  | .callback state => s.taken = none ∧ s.called = none ∧ (s.find state).isSome
  | .send identifier bytes => ∃ result, bytes = replyBytes P result ∧ s.MayReply identifier result
  | _ => True

/-- **The contract of an executor with its desk.** -/
def deskContract (P : Protobuf) (C : Catalog) : Contract Call Answer Desk where
  allows := Desk.allows P C
  next := Desk.next C
  admits := Desk.admits C

/-! ## The storage -/

/-- The contents after what an operation writes, if it writes anything. -/
def Catalog.write {C : Catalog} (write : Option (Keyed.Write Bytes Bytes Bytes))
    (d : C.Contents) : Option C.Contents :=
  match write with
  | none => some d
  | some write => d.apply write

/-- **What a callback is told**: all operations of the transaction have taken
effect, or none has. -/
def CodeOf {C : Catalog} (code : ReturnCode) (met : List (Option C.Contents)) : Prop :=
  match code with
  | .ok => none ∉ met
  | .failed => ∀ m ∈ met, m = none

/-- **What the records show**: the row that the operation has met, if there is
one that its conditions ask for. -/
def Prepared.Shows {C : Catalog} (w : Prepared) (met : List (Option C.Contents)) (pointer : Nat)
    (records : Snapshot) : Prop :=
  ∀ (k : Nat) (o : Told) (d : C.Contents), w.told[k]? = some (pointer, o) →
    met[k]? = some (some d) → ∀ table, C.table o.storeName = some table →
      ∀ row, (d o.storeName).select (o.conditions table) = {row} → o.Holds table row records

/-- **The storage**, with a desk for each executor. -/
structure Storage (ι : Type) (C : Catalog) where
  contents : C.Contents
  desk : ι → Desk
  /-- What the operations of a tuple have met, as far as they have taken
  effect, by the number of the tuple. -/
  met : ι → Nat → List (Option C.Contents)

namespace Storage

variable {ι : Type} [DecidableEq ι] {C : Catalog}

/-- An operation of a prepared transaction, by the number of its tuple. -/
structure Effect (ι : Type) where
  executor : ι
  number : Nat
  operation : Nat

/-- What the operation has been told. -/
def operation (s : Storage ι C) (e : Effect ι) : Option Told :=
  ((s.desk e.executor).waiting.find? (fun w => w.number = e.number)).bind
    (fun w => w.told[e.operation]?.map Prod.snd)

/-- No operation of the tuple has taken effect, or some have. -/
def setMet (s : Storage ι C) (i : ι) (number : Nat) (met : List (Option C.Contents)) :
    Storage ι C :=
  { s with met := Function.update s.met i (Function.update (s.met i) number met) }

/-- A transaction that is prepared has not had any effect. -/
def reset (s : Storage ι C) (i : ι) : Call → Storage ι C
  | .executeAsynchPrepare state =>
    s.setMet i (s.desk i).count (.replicate ((s.desk i).members state.transaction).length none)
  | _ => s

/-- **The operation takes effect.** -/
def perform (s : Storage ι C) (e : Effect ι) : Storage ι C :=
  match s.operation e with
  | none => s
  | some o =>
    { s.setMet e.executor e.number
        ((s.met e.executor e.number).set e.operation (some s.contents)) with
      contents := (Catalog.write o.write s.contents).getD s.contents }

/-- **The storage after a call or an effect.** -/
def next (s : Storage ι C) :
    (m : Move ι Call (Effect ι)) → m.Reply Answer → Storage ι C
  | .call i c, r => { s.reset i c with desk := Function.update s.desk i ((s.desk i).next C c r) }
  | .own e, _ => s.perform e

/-- What the answers have to do with the effects. -/
def honours (s : Storage ι C) (i : ι) : (c : Call) → Answer c → Prop
  | .callback state, code => ∀ w ∈ (s.desk i).find state, CodeOf code (s.met i w.number)
  | .records pointer, records =>
    ∀ c ∈ (s.desk i).called, c.prepared.Shows (s.met i c.prepared.number) pointer records
  | _, _ => True

/-- **What NDB may do.** -/
def admits (s : Storage ι C) : (m : Move ι Call (Effect ι)) → m.Reply Answer → Prop
  | .call i c, r => (s.desk i).admits C c r ∧ s.honours i c r
  | .own e, _ => ∃ o, s.operation e = some o
      ∧ (s.met e.executor e.number)[e.operation]? = some none
      ∧ (Catalog.write o.write s.contents).isSome

/-- Before the executors have done anything. -/
def start (ι : Type) {C : Catalog} (d : C.Contents) : Storage ι C :=
  ⟨d, fun _ => .empty, fun _ _ => []⟩

end Storage

/-- What happens among the executors and NDB, one thing after the other. -/
abbrev SharedTrace (ι : Type) : Type := SystemTrace ι (Storage.Effect ι) Answer

/-- **The contract of all executors with NDB.** -/
def sharedContract (P : Protobuf) (C : Catalog) (ι : Type) [DecidableEq ι] :
    Contract (Move ι Call (Storage.Effect ι)) (fun m => m.Reply Answer) (Storage ι C) where
  allows s
    | .call i c => (s.desk i).allows P C c
    | .own _ => True
  next := Storage.next
  admits := Storage.admits

/-- Each executor has a desk of its own. -/
theorem shares_sharedContract (P : Protobuf) (C : Catalog) (ι : Type) [DecidableEq ι] :
    Shares (sharedContract P C ι) (deskContract P C) Storage.desk where
  allows _ _ _ h := h
  allows_own _ _ := trivial
  admits _ _ _ _ h := h.1
  desk_self _ _ _ _ := Function.update_self _ _ _
  desk_other _ _ _ _ _ h := Function.update_of_ne h _ _
  desk_own s e j := by
    show (s.perform e).desk j = s.desk j
    unfold Storage.perform
    split <;> rfl

end VoloDB
