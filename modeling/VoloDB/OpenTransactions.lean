import VoloDB.BatchRuns
import VoloDB.Contract

/-!
# Open transactions

An executor runs all its transactions on one `Ndb` object, which is made for
a fixed number of them. A transaction is opened by the first manipulation
operation of a tuple. It is closed at once when an operation cannot be added,
and otherwise in the callback, which NDB runs during one of the polls. The
executor polls when it has prepared as many transactions as the object is
made for, and at the end of a batch.

The `Ledger` holds the transactions that are open, and the prepared ones
whose callbacks are still to come. `ledgerContract` allows a transaction to
be started where there is room for it, to be closed where it is open, and its
callback to run where it is prepared; of NDB it expects that a transaction it
starts is not one that is open, and that it completes none but prepared
transactions, each once. A batch keeps this contract and leaves the ledger
as empty as it was (`keeps_executeBatch`), and so does the executor with all
its batches (`settles_executeBatches`).
-/

namespace VoloDB

open Interaction NDBMessageProcessor NDBMessageExecutor

/-- `_MAX_TRANSACTIONS`: what an `Ndb` object is initialised with. -/
def maxTransactions : Nat := 1024

/-! ## The ledger -/

/-- **The transactions of an `Ndb` object.** -/
structure Ledger where
  /-- The transactions that are open. -/
  opened : List Nat
  /-- The prepared transactions whose callbacks have not run. -/
  prepared : List NdbTransactionState

namespace Ledger

/-- No transaction is open, and none is prepared. -/
def empty : Ledger := ⟨[], []⟩

/-- The ledger after a call. -/
def next (s : Ledger) : (c : Call) → Answer c → Ledger
  | .startTransaction _ _, some transaction =>
    { s with opened := s.opened ++ [transaction] }
  | .close transaction, _ => { s with opened := s.opened.erase transaction }
  | .executeAsynchPrepare state, _ => { s with prepared := s.prepared ++ [state] }
  | .callback state, _ => { s with prepared := s.prepared.erase state }
  | _, _ => s

/-- The calls an executor may make. -/
def allows (s : Ledger) : Call → Prop
  | .startTransaction _ _ => s.opened.length < maxTransactions
  | .close transaction => transaction ∈ s.opened
  | .executeAsynchPrepare state => state.transaction ∈ s.opened
  | .callback state => state ∈ s.prepared
  | _ => True

/-- The answers NDB may give: a transaction it starts was not open, and the
polls complete prepared transactions, each at most once. -/
def admits (s : Ledger) : (c : Call) → Answer c → Prop
  | .startTransaction _ _, some transaction => transaction ∉ s.opened
  | .pollNdb _, polls =>
    polls.flatten.Nodup ∧ polls.flatten ⊆ s.prepared.map (·.transaction)
  | _, _ => True

end Ledger

/-- **The contract of an executor with its `Ndb` object.** -/
def ledgerContract : Contract Call Answer Ledger where
  allows := Ledger.allows
  next := Ledger.next
  admits := Ledger.admits

/-! ## Calls that leave the ledger as it is -/

/-- Calls that do not touch a transaction as a whole. -/
def Call.isIdle : Call → Bool
  | .startTransaction _ _ | .close _ | .executeAsynchPrepare _ | .pollNdb _
  | .callback _ => false
  | _ => true

theorem Call.isIdle_of_isLookup {c : Call} (h : c.isLookup = true) : c.isIdle = true := by
  cases c <;> first | rfl | exact absurd h Bool.false_ne_true

theorem Call.isIdle_of_isBuilding {c : Call} (h : c.isBuilding = true) :
    c.isIdle = true := by
  cases c <;> first | rfl | exact absurd h Bool.false_ne_true

theorem Call.isIdle_of_isReading {c : Call} (h : c.isReading = true) : c.isIdle = true := by
  cases c <;> first | rfl | exact absurd h Bool.false_ne_true

theorem Call.isIdle_of_isDefinition {c : Call} (h : c.isDefinition = true) :
    c.isIdle = true := by
  cases c <;> first | rfl | exact absurd h Bool.false_ne_true

/-- The program keeps its side of the contract from the ledger `s` on. -/
abbrev Accounted {α : Type} (post : Ledger → α → Prop) (s : Ledger) (p : Exec α) : Prop :=
  p.Keeps ledgerContract post s

variable {s : Ledger}

theorem accounted_of_idle {α : Type} {S : Call → Prop} {p : Exec α}
    (hp : p.Within S (fun _ => True)) (hS : ∀ c, S c → c.isIdle = true) :
    Accounted (fun s' _ => s' = s) s p := by
  refine hp.keeps (fun c hc => ?_) (fun c r hc => ?_)
  · have hidle := hS c hc
    cases c <;> trivial
  · have hidle := hS c hc
    cases c <;> first | rfl | exact absurd hidle Bool.false_ne_true

theorem accounted_replyWithResult (P : Protobuf) (result : Result) (identifier : Bytes) :
    Accounted (fun s' _ => s' = s) s (replyWithResult P result identifier) := by
  rw [replyWithResult_eq]
  exact ⟨trivial, fun _ _ => rfl⟩

/-! ## What an executor holds -/

/-- **The ledger of an executor** that has prepared `pending`, and works on
`transaction` if it is one. -/
structure Held (pending : List NdbTransactionState) (transaction : Option Nat) (s : Ledger) :
    Prop where
  prepared_eq : s.prepared = pending
  opened_eq : s.opened = pending.map (·.transaction) ++ transaction.toList
  nodup : s.opened.Nodup

theorem held_empty : Held [] none .empty := ⟨rfl, rfl, List.nodup_nil⟩

variable {pending : List NdbTransactionState} {transaction : Nat}

theorem Held.eq_empty (h : Held [] none s) : s = .empty := by
  obtain ⟨opened, prepared⟩ := s
  exact congrArg₂ Ledger.mk h.opened_eq h.prepared_eq

theorem Held.length_opened (h : Held pending none s) : s.opened.length = pending.length := by
  rw [h.opened_eq, Option.toList_none, List.append_nil, List.length_map]

theorem Held.mem_opened (h : Held pending (some transaction) s) : transaction ∈ s.opened := by
  rw [h.opened_eq]
  exact List.mem_append_right _ (List.mem_singleton_self _)

/-- A transaction has been started. -/
theorem Held.start (h : Held pending none s) (hnew : transaction ∉ s.opened) :
    Held pending (some transaction) { s with opened := s.opened ++ [transaction] } := by
  refine ⟨h.prepared_eq, ?_, ?_⟩
  · show s.opened ++ [transaction] = _
    rw [h.opened_eq, Option.toList_none, List.append_nil, Option.toList_some]
  · exact List.nodup_append_comm.mp (List.nodup_cons.mpr ⟨hnew, h.nodup⟩)

/-- The transaction it works on has been closed. -/
theorem Held.close (h : Held pending (some transaction) s) :
    Held pending none { s with opened := s.opened.erase transaction } := by
  have hnodup := h.nodup
  rw [h.opened_eq, Option.toList_some, List.nodup_append_comm] at hnodup
  have hnew : transaction ∉ pending.map (·.transaction) := (List.nodup_cons.mp hnodup).1
  refine ⟨h.prepared_eq, ?_, h.nodup.erase transaction⟩
  show s.opened.erase transaction = _
  rw [h.opened_eq, Option.toList_some, List.erase_append_right _ hnew, List.erase_cons_head,
    Option.toList_none]

/-- The transaction it works on has been prepared. -/
theorem Held.prepare {state : NdbTransactionState}
    (h : Held pending (some state.transaction) s) :
    Held (pending ++ [state]) none { s with prepared := s.prepared ++ [state] } := by
  refine ⟨congrArg (· ++ [state]) h.prepared_eq, ?_, h.nodup⟩
  show s.opened = _
  rw [h.opened_eq, List.map_append, Option.toList_none, List.append_nil]
  rfl

/-- What is pending without one of the states, by the pointers. -/
theorem map_erase_transaction {state : NdbTransactionState} (hmem : state ∈ pending)
    (hnodup : (pending.map (·.transaction)).Nodup) :
    (pending.erase state).map (·.transaction)
      = (pending.map (·.transaction)).erase state.transaction := by
  induction pending with
  | nil => exact absurd hmem List.not_mem_nil
  | cons head pending ih =>
    rw [List.map_cons, List.nodup_cons] at hnodup
    by_cases heq : head = state
    · rw [heq, List.erase_cons_head, List.map_cons, List.erase_cons_head]
    · have hmem := (List.mem_cons.mp hmem).resolve_left (Ne.symm heq)
      have hne : head.transaction ≠ state.transaction := by
        intro htransaction
        exact hnodup.1 (htransaction ▸ List.mem_map_of_mem hmem)
      rw [List.erase_cons_tail (by simpa using heq), List.map_cons, List.map_cons,
        List.erase_cons_tail (by simpa using hne), ih hmem hnodup.2]

/-- A prepared transaction has been completed and closed. -/
theorem Held.complete (h : Held pending none s) {state : NdbTransactionState}
    (hmem : state ∈ pending) :
    Held (pending.erase state) none
      ⟨s.opened.erase state.transaction, s.prepared.erase state⟩ := by
  have hopened : s.opened = pending.map (·.transaction) := by
    rw [h.opened_eq, Option.toList_none, List.append_nil]
  refine ⟨congrArg (·.erase state) h.prepared_eq, ?_, h.nodup.erase _⟩
  rw [Option.toList_none, List.append_nil, map_erase_transaction hmem (hopened ▸ h.nodup)]
  exact congrArg (·.erase state.transaction) hopened

/-! ## One tuple -/

namespace NDBMessageExecutor

variable (P : Protobuf)

theorem accounted_startTransaction (h : Held pending none s)
    (hroom : pending.length < maxTransactions) (columns : List ColumnValue)
    (storeName : Bytes) :
    Accounted (fun s' started => Held pending started s') s
      (startTransaction columns storeName) := by
  have hstart : ∀ table hint, Accounted (fun s' started => Held pending started s') s
      (perform (.startTransaction table hint)) := by
    intro table hint
    have hallows : s.opened.length < maxTransactions := by rwa [h.length_opened]
    refine ⟨hallows, fun started hadmits => ?_⟩
    cases started with
    | none => exact h
    | some transaction => exact h.start hadmits
  refine (accounted_of_idle (looksUp_tableInfoOf _ _)
    (fun _ => Call.isIdle_of_isLookup)).bind ?_
  rintro _ tableInfo rfl
  cases tableInfo with
  | none => exact h
  | some table =>
    dsimp only
    split
    · rw [getHint_newHint]
      exact hstart table _
    · exact hstart table []

theorem accounted_openTransaction {transaction : Option Nat} (h : Held pending transaction s)
    (hroom : pending.length < maxTransactions) (columns : List ColumnValue)
    (storeName : Bytes) :
    Accounted (fun s' started => Held pending started s') s
      (openTransaction transaction columns storeName) := by
  cases transaction with
  | none => exact accounted_startTransaction h hroom columns storeName
  | some transaction => exact h

theorem accounted_manipulate {transaction : Option Nat} (h : Held pending transaction s)
    (hroom : pending.length < maxTransactions) (storeInfo : List StoreInfo)
    (primaryKey : List ColumnValue) {add : Nat → Exec (Option OperationState)}
    (hadd : ∀ t, (add t).Within (fun c => c.isIdle = true) (fun _ => True)) :
    Accounted (fun s' r => Held pending r.1 s') s
      (manipulate storeInfo primaryKey transaction add) := by
  unfold manipulate
  cases storeInfo with
  | nil => trivial
  | cons store rest =>
    refine (accounted_openTransaction h hroom _ _).bind (fun s' started h' => ?_)
    cases started with
    | none => exact h'
    | some t =>
      refine (accounted_of_idle (hadd t) (fun _ hc => hc)).bind ?_
      rintro _ newOperation rfl
      exact h'

/-- **The branch of a manipulation operation** starts a transaction where
there is none, and else leaves the ledger as it is. -/
theorem accounted_executeManipulation (message : Message) {transaction : Option Nat}
    (h : Held pending transaction s) (hroom : pending.length < maxTransactions) :
    Accounted (fun s' r => Held pending r.1 s') s
      (executeManipulation message transaction) := by
  have hbuilds : ∀ {α : Type} {p : Exec α}, Builds p (fun _ => True) →
      p.Within (fun c => c.isIdle = true) (fun _ => True) :=
    fun hp => hp.mono (fun _ => Call.isIdle_of_isBuilding) (fun _ hf => hf)
  cases message with
  | set operation =>
    refine accounted_manipulate h hroom _ _ (fun t => ?_)
    exact (hbuilds (builds_executeSet _ t (fun _ => trivial))).bind (fun _ => trivial)
  | delete operation =>
    refine accounted_manipulate h hroom _ _ (fun t => ?_)
    exact (hbuilds (builds_executeDelete _ t (fun _ => trivial))).bind (fun _ => trivial)
  | get operation =>
    refine accounted_manipulate h hroom _ _ (fun t => ?_)
    exact (within_executeGet (fun _ => Call.isIdle_of_isLookup)
      (fun _ => Call.isIdle_of_isBuilding) _ t (fun _ => trivial) (fun _ => trivial)).bind
        (fun _ => trivial)
  | _ => exact h

/-- The failure branch closes the transaction it works on. -/
theorem accounted_failureResult (transactionID : Bytes) {transaction : Option Nat}
    (h : Held pending transaction s) :
    Accounted (fun s' _ => Held pending none s') s
      (failureResult transactionID transaction) := by
  cases transaction with
  | none => exact h
  | some transaction =>
    refine Prog.Keeps.perform_bind trivial (fun ndbError _ => ?_)
    exact Prog.Keeps.perform_bind h.mem_opened (fun _ _ => h.close)

/-- **One turn of the loop.** After the `break` no transaction is open but
the prepared ones. -/
theorem accounted_executeMessage (messagesTuple : FrameMessagesTuple) {l : LoopState}
    (h : Held pending l.transaction s) (hroom : pending.length < maxTransactions)
    (message : Message) :
    Accounted (fun s' next => Held pending (next.bind LoopState.transaction) s') s
      (executeMessage P messagesTuple l message) := by
  unfold executeMessage
  split
  · refine (accounted_of_idle (queries_executeDefinition message _)
      (fun _ => Call.isIdle_of_isDefinition)).bind ?_
    rintro _ result rfl
    refine (accounted_replyWithResult P _ _).bind ?_
    rintro _ _ rfl
    exact h
  · refine (accounted_executeManipulation message h hroom).bind ?_
    rintro s' ⟨transaction, newOperation⟩ h'
    cases newOperation with
    | some newOperation => exact h'
    | none =>
      refine (accounted_failureResult _ h').bind (fun s'' result h'' => ?_)
      refine (accounted_replyWithResult P _ _).bind ?_
      rintro _ _ rfl
      exact h''

theorem accounted_executeMessages (messagesTuple : FrameMessagesTuple)
    (messages : List Message) {l : LoopState} (h : Held pending l.transaction s)
    (hroom : pending.length < maxTransactions) :
    Accounted (fun s' last => Held pending (last.bind LoopState.transaction) s') s
      (executeMessages P messagesTuple messages l) := by
  induction messages generalizing l s with
  | nil => exact h
  | cons message messages ih =>
    refine (accounted_executeMessage P messagesTuple h hroom message).bind ?_
    intro s' next h'
    cases next with
    | none => exact h'
    | some l' => exact ih h'

/-- **A tuple** leaves a transaction open only if it has prepared it. -/
theorem accounted_execute (messagesTuple : FrameMessagesTuple) (h : Held pending none s)
    (hroom : pending.length < maxTransactions) :
    Accounted (fun s' o => Held (pending ++ o.toList) none s') s (execute P messagesTuple) := by
  refine (accounted_executeMessages P messagesTuple messagesTuple.messages
    (l := ⟨none, []⟩) h hroom).bind ?_
  rintro s' (_ | ⟨_ | transaction, transactionOperations⟩) h'
  · rw [Prog.keeps_pure', Option.toList_none, List.append_nil]
    exact h'
  · rw [Prog.keeps_pure', Option.toList_none, List.append_nil]
    exact h'
  · exact Prog.Keeps.perform_bind h'.mem_opened (fun _ _ => Held.prepare h')

/-! ## The callbacks -/

/-- **A callback** closes its transaction, whether the commit has succeeded
or not. -/
theorem accounted_complete (h : Held pending none s) {state : NdbTransactionState}
    (hmem : state ∈ pending) :
    Accounted (fun s' _ => Held (pending.erase state) none s') s (complete P state) := by
  have hopened : state.transaction ∈ s.opened := by
    rw [h.opened_eq]
    exact List.mem_append_left _ (List.mem_map_of_mem hmem)
  have hprepared : state ∈ s.prepared := h.prepared_eq ▸ hmem
  refine Prog.Keeps.perform_bind hprepared (fun result _ => ?_)
  cases result with
  | failed =>
    refine Prog.Keeps.perform_bind trivial (fun ndbError _ => ?_)
    refine Prog.Keeps.perform_bind hopened (fun _ _ => ?_)
    refine (accounted_replyWithResult P _ _).bind ?_
    rintro _ _ rfl
    exact h.complete hmem
  | ok =>
    refine (accounted_of_idle (reads_operationResults _ trivial)
      (fun _ => Call.isIdle_of_isReading)).bind ?_
    rintro _ results rfl
    refine Prog.Keeps.perform_bind hopened (fun _ _ => ?_)
    refine (accounted_replyWithResult P _ _).bind ?_
    rintro _ _ rfl
    exact h.complete hmem

/-- What one poll leaves pending: it completes each of its transactions, and
no other. -/
structure Completed (poll : List Nat) (pending left : List NdbTransactionState) : Prop where
  length_eq : left.length + poll.length = pending.length
  keeps : ∀ transaction ∈ pending.map (·.transaction), transaction ∉ poll →
    transaction ∈ left.map (·.transaction)

theorem completed_nil (pending : List NdbTransactionState) : Completed [] pending pending :=
  ⟨rfl, fun _ h _ => h⟩

theorem Completed.cons {state : NdbTransactionState} {poll : List Nat}
    {left : List NdbTransactionState} (hmem : state ∈ pending)
    (hnodup : (pending.map (·.transaction)).Nodup)
    (h : Completed poll (pending.erase state) left) :
    Completed (state.transaction :: poll) pending left := by
  refine ⟨?_, fun transaction htransaction hpoll => ?_⟩
  · have hpos := List.length_pos_of_mem hmem
    rw [List.length_cons, ← Nat.add_assoc, h.length_eq, List.length_erase_of_mem hmem]
    exact Nat.sub_add_cancel hpos
  · refine h.keeps transaction ?_ (fun ht => hpoll (List.mem_cons_of_mem _ ht))
    rw [map_erase_transaction hmem hnodup]
    have hne : transaction ≠ state.transaction :=
      fun heq => hpoll (heq ▸ List.mem_cons_self)
    exact (List.mem_erase_of_ne hne).mpr htransaction

theorem accounted_runCallbacks {poll : List Nat} (h : Held pending none s)
    (hnodup : poll.Nodup) (hpoll : poll ⊆ pending.map (·.transaction)) :
    Accounted (fun s' left => Held left none s' ∧ Completed poll pending left) s
      (runCallbacks P poll pending) := by
  induction poll generalizing pending s with
  | nil => exact ⟨h, completed_nil pending⟩
  | cons transaction poll ih =>
    obtain ⟨hnew, hrestNodup⟩ := List.nodup_cons.mp hnodup
    obtain ⟨htransaction, hrest⟩ := List.cons_subset.mp hpoll
    have hpointers : (pending.map (·.transaction)).Nodup := by
      have hopened := h.nodup
      rwa [h.opened_eq, Option.toList_none, List.append_nil] at hopened
    unfold runCallbacks
    split
    · next hnone =>
      obtain ⟨state, hstate, heq⟩ := List.mem_map.mp htransaction
      exact absurd heq (by simpa using List.find?_eq_none.mp hnone state hstate)
    · next state hfind =>
      have hmem := List.mem_of_find?_eq_some hfind
      obtain rfl : state.transaction = transaction := by simpa using List.find?_some hfind
      refine (accounted_complete P h hmem).bind (fun s' _ h' => ?_)
      refine (ih h' hrestNodup ?_).mono (fun s'' left hleft =>
        ⟨hleft.1, hleft.2.cons hmem hpointers⟩)
      intro t ht
      have hne : t ≠ state.transaction := fun heq => hnew (heq ▸ ht)
      rw [map_erase_transaction hmem hpointers]
      exact (List.mem_erase_of_ne hne).mpr (hrest ht)

/-- **The loop over the polls** ends only when every transaction has been
completed: those that have been are counted, and the others are pending. -/
theorem accounted_pollLoop {polls : List (List Nat)} {total completed : Nat}
    (h : Held pending none s) (hcount : completed + pending.length = total)
    (hnodup : polls.flatten.Nodup) (hpolls : polls.flatten ⊆ pending.map (·.transaction)) :
    Accounted (fun s' left => left = [] ∧ Held [] none s') s
      (pollLoop P total completed pending polls) := by
  induction polls generalizing completed pending s with
  | nil => exact trivial
  | cons poll polls ih =>
    rw [List.flatten_cons] at hnodup hpolls
    obtain ⟨hpollNodup, hrestNodup, hdisjoint⟩ := List.nodup_append'.mp hnodup
    obtain ⟨hpoll, hrest⟩ := List.append_subset.mp hpolls
    unfold pollLoop
    refine (accounted_runCallbacks P h hpollNodup hpoll).bind ?_
    rintro s' left ⟨h', hcompleted⟩
    have hcount' : completed + poll.length + left.length = total := by
      rw [Nat.add_assoc, Nat.add_comm poll.length, hcompleted.length_eq, hcount]
    dsimp only
    split
    · exact ih h' hcount' hrestNodup (fun t ht =>
        hcompleted.keeps t (hrest ht) (fun hmem => hdisjoint hmem ht))
    · next hdone =>
      obtain rfl : left = [] := List.length_eq_zero_iff.mp (by omega)
      exact ⟨rfl, h'⟩

/-- **The wait** completes what is pending, where all of it is counted. -/
theorem accounted_waitForTransactionsToComplete {total : Nat} (h : Held pending none s)
    (htotal : total = pending.length) :
    Accounted (fun s' left => left = [] ∧ Held [] none s') s
      (waitForTransactionsToComplete P total pending) := by
  unfold waitForTransactionsToComplete
  split
  · refine Prog.Keeps.perform_bind trivial (fun polls hadmits => ?_)
    have hpolls : List.flatten polls ⊆ s.prepared.map (·.transaction) := hadmits.2
    rw [h.prepared_eq] at hpolls
    exact accounted_pollLoop P h (by rw [Nat.zero_add, htotal]) hadmits.1 hpolls
  · obtain rfl : pending = [] := List.length_eq_zero_iff.mp (by omega)
    exact ⟨rfl, h⟩

/-! ## A batch -/

/-- **The invariant of the loops over a batch**: the count is that of the
pending transactions, and there is room for one more. -/
structure Counted (b : BatchState) (s : Ledger) : Prop where
  held : Held b.pending none s
  count_eq : b.totalTransactions = b.pending.length
  room : b.pending.length < maxTransactions

theorem counted_zero (h : Held [] none s) : Counted ⟨0, []⟩ s :=
  ⟨h, rfl, by decide⟩

theorem accounted_executeTuples {tuples : List FrameMessagesTuple} {b : BatchState}
    (h : Counted b s) :
    Accounted (fun s' b' => Counted b' s') s (executeTuples P tuples b) := by
  induction tuples generalizing b s with
  | nil => exact h
  | cons messagesTuple tuples ih =>
    unfold executeTuples
    refine Prog.Keeps.perform_bind trivial (fun _ _ => ?_)
    refine (accounted_execute P messagesTuple h.held h.room).bind (fun s' prepared h' => ?_)
    cases prepared with
    | none =>
      rw [Option.toList_none, List.append_nil] at h'
      exact ih ⟨h', h.count_eq, h.room⟩
    | some state =>
      have hcount : b.totalTransactions + 1 = (b.pending ++ [state]).length := by
        rw [List.length_append, h.count_eq, List.length_singleton]
      dsimp only
      split
      · refine (accounted_waitForTransactionsToComplete P h' hcount).bind ?_
        rintro s'' left ⟨rfl, h''⟩
        exact ih (counted_zero h'')
      · next hne =>
        -- the count has not come to the capacity, and it was below it
        refine ih ⟨h', hcount, lt_of_le_of_ne ?_ (fun heq => hne (hcount.trans heq))⟩
        rw [← hcount, h.count_eq]
        exact h.room

theorem accounted_executeLists {taskLists : List (List FrameMessagesTuple)} {b : BatchState}
    (h : Counted b s) :
    Accounted (fun s' b' => Counted b' s') s (executeLists P taskLists b) := by
  induction taskLists generalizing b s with
  | nil => exact h
  | cons taskList taskLists ih =>
    exact (accounted_executeTuples P h).bind (fun s' b' h' => ih h')

/-- **A batch keeps the contract**, and nothing is pending at its end. -/
theorem accounted_executeBatch (messages : List (List FrameMessagesTuple))
    (h : Held [] none s) :
    Accounted (fun s' left => left = [] ∧ Held [] none s') s (executeBatch P messages []) := by
  refine (accounted_executeLists P (counted_zero h)).bind (fun s' b h' => ?_)
  split
  · exact accounted_waitForTransactionsToComplete P h'.held h'.count_eq
  · next hzero =>
    have hpending : b.pending = [] := List.length_eq_zero_iff.mp (by have := h'.count_eq; omega)
    rw [Prog.keeps_pure', hpending]
    exact ⟨rfl, hpending ▸ h'.held⟩

/-- The loop of `_executorWorkerThreadFunc`, through the batches an executor
receives before it is stopped. -/
def executeBatches : List (List (List FrameMessagesTuple)) → List NdbTransactionState →
    Exec (List NdbTransactionState)
  | [], pending => return pending
  | messages :: batches, pending => do
    let pending ← executeBatch P messages pending
    executeBatches batches pending

/-- **All batches of an executor** keep the contract, one after the other. -/
theorem accounted_executeBatches (batches : List (List (List FrameMessagesTuple)))
    (h : Held [] none s) :
    Accounted (fun s' left => left = [] ∧ Held [] none s') s (executeBatches P batches []) := by
  induction batches generalizing s with
  | nil => exact ⟨rfl, h⟩
  | cons messages batches ih =>
    refine (accounted_executeBatch P messages h).bind ?_
    rintro s' left ⟨rfl, h'⟩
    exact ih h'

end NDBMessageExecutor

/-! ## The books of a run -/

/-- The transaction a call has started. -/
def startedBy : Event Answer → List Nat
  | ⟨.startTransaction _ _, some transaction⟩ => [transaction]
  | _ => []

/-- The transaction a call has closed. -/
def closedBy : Event Answer → List Nat
  | ⟨.close transaction, _⟩ => [transaction]
  | _ => []

/-- The transaction a call has prepared. -/
def preparedBy : Event Answer → List NdbTransactionState
  | ⟨.executeAsynchPrepare state, _⟩ => [state]
  | _ => []

/-- The transaction whose callback has been entered. -/
def calledBackBy : Event Answer → List NdbTransactionState
  | ⟨.callback state, _⟩ => [state]
  | _ => []

/-- The transactions that were started in a run, in order. -/
def started (trace : Trace) : List Nat := trace.flatMap startedBy

/-- The transactions that were closed. -/
def closed (trace : Trace) : List Nat := trace.flatMap closedBy

/-- The transactions that were prepared. -/
def prepared (trace : Trace) : List NdbTransactionState := trace.flatMap preparedBy

/-- The transactions whose callbacks have run. -/
def calledBack (trace : Trace) : List NdbTransactionState := trace.flatMap calledBackBy

@[simp] theorem started_append (trace rest : Trace) :
    started (trace ++ rest) = started trace ++ started rest :=
  List.flatMap_append

@[simp] theorem closed_append (trace rest : Trace) :
    closed (trace ++ rest) = closed trace ++ closed rest :=
  List.flatMap_append

@[simp] theorem prepared_append (trace rest : Trace) :
    prepared (trace ++ rest) = prepared trace ++ prepared rest :=
  List.flatMap_append

@[simp] theorem calledBack_append (trace rest : Trace) :
    calledBack (trace ++ rest) = calledBack trace ++ calledBack rest :=
  List.flatMap_append

/-- What was open is still open or has been closed, and so is what was
started. -/
theorem perm_opened {c : Call} (r : Answer c) (h : s.allows c) :
    (s.opened ++ startedBy ⟨c, r⟩).Perm ((s.next c r).opened ++ closedBy ⟨c, r⟩) := by
  cases c with
  | startTransaction table hint =>
    cases r with
    | none => exact .refl _
    | some transaction =>
      show (s.opened ++ [transaction]).Perm (s.opened ++ [transaction] ++ [])
      rw [List.append_nil]
  | close transaction =>
    show (s.opened ++ []).Perm (s.opened.erase transaction ++ [transaction])
    rw [List.append_nil]
    exact (List.perm_cons_erase h).trans (List.perm_append_singleton _ _).symm
  | _ => exact .refl _

/-- What was prepared is still so or its callback has run. -/
theorem perm_prepared {c : Call} (r : Answer c) (h : s.allows c) :
    (s.prepared ++ preparedBy ⟨c, r⟩).Perm ((s.next c r).prepared ++ calledBackBy ⟨c, r⟩) := by
  cases c with
  | startTransaction table hint =>
    cases r with
    | none => exact .refl _
    | some transaction => exact .refl _
  | executeAsynchPrepare state =>
    show (s.prepared ++ [state]).Perm (s.prepared ++ [state] ++ [])
    rw [List.append_nil]
  | callback state =>
    show (s.prepared ++ []).Perm (s.prepared.erase state ++ [state])
    rw [List.append_nil]
    exact (List.perm_cons_erase h).trans (List.perm_append_singleton _ _).symm
  | _ => exact .refl _

/-- No call opens more transactions than there is room for. -/
theorem length_opened_next {c : Call} (r : Answer c) (hle : s.opened.length ≤ maxTransactions)
    (h : s.allows c) : (s.next c r).opened.length ≤ maxTransactions := by
  cases c with
  | startTransaction table hint =>
    cases r with
    | none => exact hle
    | some transaction =>
      show (s.opened ++ [transaction]).length ≤ maxTransactions
      rw [List.length_append, List.length_singleton]
      exact h
  | close transaction => exact (List.length_erase_le).trans hle
  | _ => exact hle

/-- **All transactions of a run are accounted for**: at every point no more
are open than there is room for, only what is open is closed, and only what
is prepared is called back; and at the end nothing is left open or
prepared, so that each that was started has been closed once, and each that
was prepared has been called back once. -/
structure Settles (trace : Trace) (o : Except Fault (List NdbTransactionState)) : Prop where
  bounded : ∀ front rest, trace = front ++ rest →
    (ledgerContract.after .empty front).opened.length ≤ maxTransactions
  closes_opened : ∀ front transaction rest, trace = front ++ ⟨.close transaction, ()⟩ :: rest →
    transaction ∈ (ledgerContract.after .empty front).opened
  calls_prepared : ∀ front state (result : ReturnCode) rest,
    trace = front ++ ⟨.callback state, result⟩ :: rest →
    state ∈ (ledgerContract.after .empty front).prepared
  returns : ∀ left, o = .ok left →
    left = [] ∧ ledgerContract.after .empty trace = .empty
      ∧ (closed trace).Perm (started trace) ∧ (calledBack trace).Perm (prepared trace)

/-- **A program that keeps the contract settles its transactions** in every
run in which NDB keeps it. -/
theorem settles_of_accounted {p : Exec (List NdbTransactionState)}
    (hp : Accounted (fun s left => left = [] ∧ Held [] none s) .empty p) {trace : Trace}
    {o : Except Fault (List NdbTransactionState)} (hrun : p.Runs trace o)
    (hndb : ledgerContract.Admitted .empty trace) : Settles trace o := by
  obtain ⟨hallowed, hpost⟩ := hp.run hrun hndb
  refine ⟨?_, ?_, ?_, fun left ho => ?_⟩
  · rintro front rest rfl
    exact Contract.invariant_append (C := ledgerContract)
      (I := fun s => s.opened.length ≤ maxTransactions)
      (fun s c r hle hc _ => length_opened_next r hle hc) (Nat.zero_le _) hallowed hndb
  · rintro front transaction rest rfl
    exact (Contract.allowed_append.mp hallowed).2.1
  · rintro front state result rest rfl
    exact (Contract.allowed_append.mp hallowed).2.1
  · obtain ⟨hleft, hheld⟩ := hpost left ho
    have hempty := hheld.eq_empty
    have hopened := Contract.conserves Ledger.opened startedBy closedBy
      (fun s c r hc _ => perm_opened r hc) hallowed hndb
    have hprepared := Contract.conserves Ledger.prepared preparedBy calledBackBy
      (fun s c r hc _ => perm_prepared r hc) hallowed hndb
    rw [hempty] at hopened hprepared
    exact ⟨hleft, hempty, hopened.symm, hprepared.symm⟩

variable (P : Protobuf)

/-- **A batch settles all its transactions.** -/
theorem settles_executeBatch (messages : List (List FrameMessagesTuple)) {trace : Trace}
    {o : Except Fault (List NdbTransactionState)}
    (hrun : (executeBatch P messages []).Runs trace o)
    (hndb : ledgerContract.Admitted .empty trace) : Settles trace o :=
  settles_of_accounted (accounted_executeBatch P messages held_empty) hrun hndb

/-- **An executor settles the transactions of all its batches.** -/
theorem settles_executeBatches (batches : List (List (List FrameMessagesTuple)))
    {trace : Trace} {o : Except Fault (List NdbTransactionState)}
    (hrun : (executeBatches P batches []).Runs trace o)
    (hndb : ledgerContract.Admitted .empty trace) : Settles trace o :=
  settles_of_accounted (accounted_executeBatches P batches held_empty) hrun hndb

end VoloDB
