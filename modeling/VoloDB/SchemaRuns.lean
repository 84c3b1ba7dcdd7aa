import VoloDB.CacheWatch
import VoloDB.Contract
import VoloDB.TupleRuns

/-!
# The cache and the schema

One executor runs tuples one after the other, on a server that is the only
one changing the schema. The cache takes in a table when a manipulation
operation looks it up and gives it away when a `DROP_STORE` has succeeded,
under the name of that operation. So an entry is **valid** – its store
exists, in the version that was looked up – unless a query has removed the
store and the entry stayed.

What a query removes is for MySQL to say: `DROP DATABASE` all stores of the
database, and `DROP TABLE` every store its text lists. What the cache holds
then is told by the turns before: a name is **known** if an operation on it
was answered with a table by the dictionary, and no `DROP_STORE` of the very
name has succeeded since (`Tracked`). A turn **spares** what is known if the
stores its query removes are known under no name but that of the
`DROP_STORE` itself. The entries are valid throughout a run exactly if every
turn of it spares what is known by then (`valid_iff_sparesAll`).
-/

namespace VoloDB

open Interaction FrameUtils NDBMessageExecutor

namespace SchemaRuns

/-! ## The database and the cache -/

/-- **MySQL**, by what queries do when they succeed: whether a text removes
the store of a name, and in which version it creates one, at a time. -/
structure MySQL where
  removes : Bytes → Bytes → Bool
  creates : Nat → Bytes → Bytes → Option Nat

/-- **The stores of the database, and the entries of the cache.** -/
structure World where
  /-- The version of a store that exists. -/
  stores : Bytes → Option Nat
  entries : Bytes → Option Table
  /-- The number of calls so far. -/
  time : Nat
  /-- What the executor has in hand. It is read by no step. -/
  watch : Watch

/-- A server that has just been started. -/
def World.init (stores : Bytes → Option Nat) : World := ⟨stores, fun _ => none, 0, Watch.init⟩

namespace World

variable (M : MySQL) (w : World)

/-- The stores after a query that has succeeded. A failed query changes
nothing. -/
def queried (text name : Bytes) : Option Nat :=
  if M.removes text name then none
  else
    match w.stores name with
    | some version => some version
    | none => M.creates w.time text name

/-- The stores after a call. -/
def storesAfter : (c : Call) → Answer c → Bytes → Option Nat
  | .query text, none => w.queried M text
  | _, _ => w.stores

/-- The entries after a call. -/
def entriesAfter : Call → Bytes → Option Table
  | .cacheInsert storeName table => Function.update w.entries storeName (some table)
  | .cacheErase storeName => Function.update w.entries storeName none
  | _ => w.entries

/-- After a call with its answer. -/
def after (c : Call) (r : Answer c) : World :=
  ⟨w.storesAfter M c r, w.entriesAfter c, w.time + 1, w.watch.next c r⟩

/-- The answers there can be: the cache answers what it holds, and the
dictionary finds the current version of a store, if it finds any. -/
def Answers : (c : Call) → Answer c → Prop
  | .cacheGet storeName, r => r = w.entries storeName
  | .getTable storeName, r => ∀ table, r = some table → w.stores storeName = some table.version
  | _, _ => True

/-- **Every entry names a store that exists**, in the version that was
looked up. -/
def Valid : Prop :=
  ∀ key table, w.entries key = some table → w.stores (cStr key) = some table.version

end World

/-- The rules of a run: the executor keeps to the monitor of the cache, and
the database and the cache answer by what is in them. -/
def contract (M : MySQL) : Contract Call Answer World where
  allows w c := w.watch.allows c
  next w c r := w.after M c r
  admits w c r := w.Answers c r

/-! ## The calls of one turn -/

/-- The text of a query that has succeeded. -/
def succeeded : Event Answer → Option Bytes
  | ⟨.query text, none⟩ => some text
  | _ => none

/-- The name under which an operation looks up a table. -/
def lookupKey (message : Message) : Option Bytes :=
  message.storeInfos.head?.map StoreInfo.storeName

/-- The key an operation erases once its query has succeeded. -/
def erasedKey : Message → Option Bytes
  | .dropStore operation => some operation.storeInfo.storeName
  | _ => none

/-- The erasure that follows the query of an operation. -/
def erasures (message : Message) : Trace :=
  (erasedKey message).toList.map (fun key => ⟨.cacheErase key, ()⟩)

/-- **Calls without a query that has succeeded.** Nothing is erased, and
inserted is what the dictionary has found, under the one name that is looked
up. -/
structure Fetches (key : Option Bytes) (trace : Trace) : Prop where
  quiet : ∀ e ∈ trace, succeeded e = none
  keeps : ∀ name, (⟨.cacheErase name, ()⟩ : Event Answer) ∉ trace
  inserts : ∀ name table, (⟨.cacheInsert name table, ()⟩ : Event Answer) ∈ trace
    ↔ key = some name ∧ (⟨.getTable (cStr name), some table⟩ : Event Answer) ∈ trace

theorem Fetches.append {key : Option Bytes} {front rest : Trace} (h : Fetches key front)
    (h' : Fetches key rest) : Fetches key (front ++ rest) where
  quiet := List.forall_mem_append.mpr ⟨h.quiet, h'.quiet⟩
  keeps name hmem := (List.mem_append.mp hmem).elim (h.keeps name) (h'.keeps name)
  inserts name table := by
    rw [List.mem_append, List.mem_append, h.inserts, h'.inserts, ← and_or_left]

theorem succeeded_of_leavesCache {e : Event Answer} (h : e.1.leavesCache = true) :
    succeeded e = none := by
  obtain ⟨c, r⟩ := e
  cases c <;> first | rfl | exact absurd h Bool.false_ne_true

theorem fetches_of_leavesCache {key : Option Bytes} {trace : Trace}
    (h : ∀ e ∈ trace, e.1.leavesCache = true) : Fetches key trace where
  quiet e he := succeeded_of_leavesCache (h e he)
  keeps _ hmem := absurd (h _ hmem) Bool.false_ne_true
  inserts _ _ := iff_of_false (fun hmem => absurd (h _ hmem) Bool.false_ne_true)
    (fun hmem => absurd (h _ hmem.2) Bool.false_ne_true)

theorem fetches_nil (key : Option Bytes) : Fetches key [] :=
  fetches_of_leavesCache (List.forall_mem_nil _)

/-- A query that has failed. -/
theorem fetches_failed {key : Option Bytes} (text error : Bytes) :
    Fetches key [⟨.query text, some error⟩] where
  quiet := List.forall_mem_singleton.mpr rfl
  keeps _ hmem := by cases List.mem_singleton.mp hmem
  inserts _ _ := iff_of_false (fun hmem => by cases List.mem_singleton.mp hmem)
    (fun hmem => by cases List.mem_singleton.mp hmem.2)

/-- A table that the dictionary has not found. -/
theorem fetches_missing (storeName : Bytes) :
    Fetches (some storeName) [⟨.getTable (cStr storeName), none⟩] where
  quiet := List.forall_mem_singleton.mpr rfl
  keeps _ hmem := by cases List.mem_singleton.mp hmem
  inserts name table := by
    refine iff_of_false (fun hmem => by cases List.mem_singleton.mp hmem) ?_
    rintro ⟨hname, hmem⟩
    obtain rfl := Option.some.inj hname
    cases List.mem_singleton.mp hmem

/-- A table that it has. -/
theorem fetches_found (storeName : Bytes) (found : Table) :
    Fetches (some storeName)
      [⟨.getTable (cStr storeName), some found⟩, ⟨.cacheInsert storeName found, ()⟩] where
  quiet := List.forall_mem_cons.mpr ⟨rfl, List.forall_mem_singleton.mpr rfl⟩
  keeps _ hmem := by
    rcases List.mem_pair.mp hmem with heq | heq <;> cases heq
  inserts name table := by
    rw [List.mem_pair, List.mem_pair]
    constructor
    · rintro (heq | heq) <;> cases heq
      exact ⟨rfl, Or.inl rfl⟩
    · rintro ⟨hname, heq⟩
      obtain rfl := Option.some.inj hname
      rcases heq with heq | heq <;> cases heq
      exact Or.inr rfl

/-! ### Operations that make no query -/

/-- No run of the program has a query that succeeds, and all it looks up is
the table of one name. -/
abbrev Fetching {α : Type} (key : Option Bytes) (p : Exec α) : Prop :=
  p.Ensures (fun trace _ => Fetches key trace)

section Fetching

variable {α β : Type} {key : Option Bytes}

theorem fetching_pure (a : α) : Fetching key (pure a : Exec α) :=
  Prog.ensures_pure'.mpr (fetches_nil key)

theorem fetching_fault (f : Fault) : Fetching key (.fault f : Exec α) :=
  Prog.ensures_fault.mpr (fetches_nil key)

theorem Fetching.bind {p : Exec α} {f : α → Exec β} (hp : Fetching key p)
    (hf : ∀ a, Fetching key (f a)) : Fetching key (p >>= f) :=
  Prog.Ensures.bind hp (fun _ _ h => h)
    (fun _ a hfront => (hf a).mono (fun _ _ hrest => hfront.append hrest))

theorem fetching_of_leavesCache {F : Fault → Prop} {p : Exec α}
    (hp : p.Within (fun c => c.leavesCache = true) F) : Fetching key p :=
  hp.ensures.mono (fun _ _ h => fetches_of_leavesCache h.1)

theorem fetching_of_operates {F : Fault → Prop} {p : Exec α} (hp : Operates p F) :
    Fetching key p :=
  fetching_of_leavesCache
    (hp.mono (fun _ => Call.leavesCache_of_isOperation) (fun _ hf => hf))

theorem fetching_of_builds {F : Fault → Prop} {p : Exec α} (hp : Builds p F) :
    Fetching key p :=
  fetching_of_operates (operates_of_builds hp)

end Fetching

/-- **A table that is not in the cache** is looked up, and inserted if it is
found. -/
theorem fetching_tableInfoOf (cachedName storeName : Bytes) :
    Fetching (some storeName) (tableInfoOf cachedName storeName) := by
  refine Prog.ensures_call.mpr (fun cached => ?_)
  cases cached with
  | some table =>
    exact Prog.ensures_pure'.mpr (fetches_of_leavesCache (List.forall_mem_singleton.mpr rfl))
  | none =>
    refine Prog.ensures_call.mpr (fun found => ?_)
    have hget : Fetches (some storeName) [⟨.cacheGet cachedName, none⟩] :=
      fetches_of_leavesCache (List.forall_mem_singleton.mpr rfl)
    cases found with
    | none => exact Prog.ensures_pure'.mpr (hget.append (fetches_missing storeName))
    | some found =>
      exact Prog.ensures_call.mpr (fun _ => Prog.ensures_pure'.mpr
        (hget.append (fetches_found storeName found)))

theorem fetching_openTransaction (transaction : Option Nat) (columns : List ColumnValue)
    (storeName : Bytes) :
    Fetching (some storeName) (openTransaction transaction columns storeName) := by
  cases transaction with
  | some t => exact fetching_pure _
  | none =>
    refine (fetching_tableInfoOf _ _).bind (fun tableInfo => ?_)
    cases tableInfo with
    | none => exact fetching_pure _
    | some table =>
      dsimp only
      split
      · split
        · exact fetching_fault _
        · exact fetching_of_leavesCache (F := fun _ => True) (Prog.within_perform.mpr rfl)
      · exact fetching_of_leavesCache (F := fun _ => True) (Prog.within_perform.mpr rfl)

theorem fetching_executeGet (operation : GetOperation) (transaction : Nat) :
    Fetching (lookupKey (.get operation)) (executeGet operation transaction) := by
  have hkey : lookupKey (.get operation) = operation.storeInfo.head?.map StoreInfo.storeName := rfl
  rw [hkey, executeGet]
  cases operation.storeInfo with
  | nil => exact fetching_fault _
  | cons storeInfo rest =>
    rw [storeInfo0, Prog.pure_bind]
    refine (fetching_tableInfoOf _ _).bind (fun tableInfo => ?_)
    cases tableInfo with
    | none => exact fetching_pure _
    | some tableInfo =>
      refine (fetching_of_builds (F := fun _ => True)
        (builds_accessPath _ _ _ _ (fun _ => trivial))).bind (fun path => ?_)
      cases path with
      | none => exact fetching_pure _
      | some ndbGetOperation =>
        refine (fetching_of_builds (F := fun _ => True) (builds_getValues _ _ _)).bind
          (fun records => ?_)
        cases records <;> exact fetching_pure _

theorem fetching_manipulate (storeInfo : List StoreInfo) (primaryKey : List ColumnValue)
    (transaction : Option Nat) {add : Nat → Exec (Option OperationState)}
    (hadd : ∀ t, Fetching (storeInfo.head?.map StoreInfo.storeName) (add t)) :
    Fetching (storeInfo.head?.map StoreInfo.storeName)
      (manipulate storeInfo primaryKey transaction add) := by
  cases storeInfo with
  | nil => exact fetching_fault _
  | cons store rest =>
    refine (fetching_openTransaction _ _ _).bind (fun started => ?_)
    cases started with
    | none => exact fetching_pure _
    | some t => exact (hadd t).bind (fun _ => fetching_pure _)

theorem fetching_executeManipulation (message : Message) (transaction : Option Nat) :
    Fetching (lookupKey message) (executeManipulation message transaction) := by
  cases message with
  | set operation =>
    exact fetching_manipulate _ _ _ (fun t => (fetching_of_builds (F := fun _ => True)
      (builds_executeSet _ _ (fun _ => trivial))).bind (fun _ => fetching_pure _))
  | delete operation =>
    exact fetching_manipulate _ _ _ (fun t => (fetching_of_builds (F := fun _ => True)
      (builds_executeDelete _ _ (fun _ => trivial))).bind (fun _ => fetching_pure _))
  | get operation =>
    exact fetching_manipulate _ _ _ (fun t => (fetching_executeGet _ _).bind
      (fun _ => fetching_pure _))
  | _ => exact fetching_pure _

/-! ### Operations that make one -/

theorem runQuery_ran (key : Option Bytes) (text transactionID : Bytes) :
    (runQuery text transactionID).Returns (fun trace result =>
      (Fetches key trace ∧ result.errorCode ≠ none)
        ∨ (trace = [⟨.query (cStr text), none⟩] ∧ result.errorCode = none)) := by
  refine Prog.ensures_call.mpr (fun error => ?_)
  cases error with
  | some error =>
    refine Prog.returns_pure (Or.inl ⟨fetches_failed _ error, ?_⟩)
    simp [makeResultForError]
  | none => exact Prog.returns_pure (Or.inr ⟨rfl, rfl⟩)

/-- No query has succeeded, or the query of the operation, and the erasure
after it. -/
def Ran (message : Message) (trace : Trace) : Prop :=
  Fetches (lookupKey message) trace
    ∨ ∃ text, message.effect = some (.query text) ∧ trace = ⟨.query text, none⟩ :: erasures message

theorem ran_nil (message : Message) : Ran message [] := Or.inl (fetches_nil _)

/-- An operation that erases nothing comes to its query. -/
theorem runQuery_ran_of_erasedKey {message : Message} (hkey : erasedKey message = none)
    {text : Bytes} (htext : message.effect = some (.query (cStr text))) (transactionID : Bytes) :
    (some <$> runQuery text transactionID).Returns (fun trace _ => Ran message trace) := by
  refine (runQuery_ran (lookupKey message) text transactionID).map ?_
  rintro trace result (⟨hfetches, -⟩ | ⟨rfl, -⟩)
  · exact Or.inl hfetches
  · exact Or.inr ⟨cStr text, htext, by rw [erasures, hkey]; rfl⟩

theorem executeDropStore_ran (operation : DropStoreOperation) (transactionID : Bytes) :
    (executeDropStore operation transactionID).Returns
      (fun trace _ => Ran (.dropStore operation) trace) := by
  refine (runQuery_ran (lookupKey (.dropStore operation)) _ transactionID).bind ?_
  rintro front result (⟨hfetches, herr⟩ | ⟨rfl, herr⟩)
  · obtain ⟨code, hcode⟩ := Option.ne_none_iff_exists'.mp herr
    rw [hcode]
    exact Prog.returns_pure (Or.inl (by rwa [List.append_nil]))
  · rw [herr]
    exact Prog.ensures_call.mpr (fun _ => Prog.returns_pure (Or.inr ⟨_, rfl, rfl⟩))

theorem executeCreateStore_ran (operation : CreateStoreOperation) (transactionID : Bytes) :
    (some <$> executeCreateStore operation transactionID).Returns
      (fun trace _ => Ran (.createStore operation) trace) := by
  unfold executeCreateStore
  split
  · exact Prog.returns_pure (ran_nil _)
  · split
    · exact Prog.returns_pure (ran_nil _)
    · exact runQuery_ran_of_erasedKey rfl rfl transactionID

/-- **What a definition operation does**: its query, and where this has
succeeded, the erasure. -/
theorem executeDefinition_ran (message : Message) (transactionID : Bytes) :
    (executeDefinition message transactionID).Returns (fun trace _ => Ran message trace) := by
  cases message with
  | createDatabase operation => exact runQuery_ran_of_erasedKey rfl rfl transactionID
  | dropDatabase operation => exact runQuery_ran_of_erasedKey rfl rfl transactionID
  | createStore operation => exact executeCreateStore_ran operation transactionID
  | dropStore operation => exact (executeDropStore_ran operation transactionID).map (fun _ _ h => h)
  | _ => exact Prog.returns_pure (ran_nil _)

variable (P : Protobuf)

/-- A manipulation operation makes no query. -/
theorem fetching_executeMessage (messagesTuple : FrameMessagesTuple) (s : LoopState)
    {message : Message} (hd : isDefinitionFrame message = false) :
    Fetching (lookupKey message) (executeMessage P messagesTuple s message) := by
  unfold executeMessage
  rw [hd, if_neg Bool.false_ne_true]
  refine (fetching_executeManipulation message s.transaction).bind ?_
  rintro ⟨transaction, newOperation⟩
  cases newOperation with
  | some newOperation => exact fetching_pure _
  | none =>
    refine (fetching_of_operates (operates_failureResult (F := fun _ => True) _ _)).bind
      (fun result => ?_)
    rw [replyWithResult_eq]
    exact fetching_of_leavesCache (F := fun _ => True) ⟨rfl, fun _ => trivial⟩

/-- **What one turn of the loop does**: no query succeeds, or the query of
the operation does, and the erasure follows and then nothing that concerns
the cache. -/
theorem executeMessage_ran (messagesTuple : FrameMessagesTuple) (s : LoopState)
    (message : Message) :
    (executeMessage P messagesTuple s message).Ensures (fun trace _ =>
      Fetches (lookupKey message) trace
        ∨ ∃ text rest, message.effect = some (.query text)
          ∧ trace = ⟨.query text, none⟩ :: (erasures message ++ rest)
          ∧ ∀ e ∈ rest, e.1.leavesCache = true) := by
  cases hd : isDefinitionFrame message with
  | false =>
    exact (fetching_executeMessage P messagesTuple s hd).mono (fun _ _ h => Or.inl h)
  | true =>
    unfold executeMessage
    rw [hd, if_pos rfl]
    refine (executeDefinition_ran message messagesTuple.transactionID).bind ?_
    intro front result hfront
    rw [replyWithResult_eq]
    refine Prog.ensures_call.mpr (fun _ => Prog.ensures_pure'.mpr ?_)
    rcases hfront with hfetches | ⟨text, htext, rfl⟩
    · exact Or.inl (hfetches.append
        (fetches_of_leavesCache (List.forall_mem_singleton.mpr rfl)))
    · exact Or.inr ⟨text, _, htext, rfl, List.forall_mem_singleton.mpr rfl⟩

/-! ## What one call keeps -/

/-- **The invariant**: the entries are valid, and a table the executor has
in hand is of the current version. -/
structure Sound (w : World) : Prop where
  valid : w.Valid
  inHand : ∀ name table, w.watch.lookup = some (name, table) →
    w.stores name = some table.version

variable {M : MySQL} {w : World}

/-- Valid entries stay valid if what is put in the place of one is. -/
theorem World.Valid.update (h : w.Valid) {storeName : Bytes} {entry : Option Table}
    (hentry : ∀ table, entry = some table → w.stores (cStr storeName) = some table.version)
    {key : Bytes} {table : Table}
    (hkey : Function.update w.entries storeName entry key = some table) :
    w.stores (cStr key) = some table.version := by
  by_cases heq : key = storeName
  · subst heq
    rw [Function.update_self] at hkey
    exact hentry table hkey
  · rw [Function.update_of_ne heq] at hkey
    exact h key table hkey

/-- **Every call but a successful query keeps the invariant.** -/
theorem Sound.step (h : Sound w) {c : Call} {r : Answer c} (hallows : w.watch.allows c)
    (hr : w.Answers c r) (hq : succeeded ⟨c, r⟩ = none) : Sound (w.after M c r) := by
  cases c with
  | query text =>
    cases r with
    | none => exact absurd hq (by simp [succeeded])
    | some error => exact ⟨h.valid, h.inHand⟩
  | getTable storeName =>
    cases r with
    | none => exact ⟨h.valid, h.inHand⟩
    | some found =>
      refine ⟨h.valid, fun name table hl => ?_⟩
      obtain ⟨rfl, rfl⟩ := Prod.mk.inj (Option.some.inj hl)
      exact hr found rfl
  | cacheInsert storeName inserted =>
    refine ⟨fun key table => h.valid.update (fun table heq => ?_), fun name table hl => nomatch hl⟩
    -- the table that is inserted is the one in hand
    obtain rfl := Option.some.inj heq
    exact h.inHand _ _ hallows
  | cacheErase storeName =>
    exact ⟨fun key table => h.valid.update (fun table heq => by cases heq), h.inHand⟩
  | _ => exact ⟨h.valid, h.inHand⟩

/-- **A part of a run in which no query succeeds keeps the invariant.** -/
theorem Sound.run (h : Sound w) {trace : Trace} (hallowed : (contract M).Allowed w trace)
    (hadmitted : (contract M).Admitted w trace) (hquiet : ∀ e ∈ trace, succeeded e = none) :
    Sound ((contract M).after w trace) := by
  induction trace generalizing w with
  | nil => exact h
  | cons e trace ih =>
    obtain ⟨he, hrest⟩ := List.forall_mem_cons.mp hquiet
    exact ih (h.step hallowed.1 hadmitted.1 he) hallowed.2 hadmitted.2 hrest

/-- Calls that leave the cache alone change neither it nor the stores. -/
theorem after_of_leavesCache {trace : Trace} (h : ∀ e ∈ trace, e.1.leavesCache = true) :
    ((contract M).after w trace).stores = w.stores
      ∧ ((contract M).after w trace).entries = w.entries := by
  induction trace generalizing w with
  | nil => exact ⟨rfl, rfl⟩
  | cons e trace ih =>
    obtain ⟨he, hrest⟩ := List.forall_mem_cons.mp h
    obtain ⟨c, r⟩ := e
    obtain ⟨hstores, hentries⟩ := ih (w := w.after M c r) hrest
    rw [Contract.after_cons]
    refine ⟨hstores.trans ?_, hentries.trans ?_⟩ <;>
      cases c <;> first | rfl | exact absurd he Bool.false_ne_true

/-- Without erasures, there are the entries that were there and those that
are inserted. -/
theorem entries_after {trace : Trace}
    (hkeeps : ∀ name, (⟨.cacheErase name, ()⟩ : Event Answer) ∉ trace) (key : Bytes) :
    (∃ table, ((contract M).after w trace).entries key = some table)
      ↔ (∃ table, w.entries key = some table)
        ∨ ∃ table, (⟨.cacheInsert key table, ()⟩ : Event Answer) ∈ trace := by
  induction trace generalizing w with
  | nil => exact (or_iff_left (fun ⟨_, h⟩ => absurd h List.not_mem_nil)).symm
  | cons e trace ih =>
    obtain ⟨c, r⟩ := e
    rw [Contract.after_cons, ih (fun name h => hkeeps name (.tail _ h))]
    simp only [List.mem_cons, exists_or, ← or_assoc]
    refine or_congr_left ?_
    cases c with
    | cacheErase name => exact absurd (.head _) (hkeeps name)
    | cacheInsert name inserted =>
      show (∃ table, Function.update w.entries name (some inserted) key = some table) ↔ _
      by_cases hkey : key = name
      · subst hkey
        rw [Function.update_self]
        exact iff_of_true ⟨inserted, rfl⟩ (Or.inr ⟨inserted, rfl⟩)
      · rw [Function.update_of_ne hkey]
        refine (or_iff_left ?_).symm
        rintro ⟨table, heq⟩
        cases heq
        exact hkey rfl
    | _ =>
      refine (or_iff_left ?_).symm
      rintro ⟨table, heq⟩
      cases heq

/-! ## What is known of the cache -/

/-- **A turn of the loop**: the message, where it was executed, and the
calls this made. -/
structure Turn where
  world : World
  message : Message
  trace : Trace

namespace Turn

variable (M : MySQL) (turn : Turn)

/-- The operation is on the store of this name, and the dictionary has
answered it with a table. -/
def LooksUp (key : Bytes) : Prop :=
  lookupKey turn.message = some key
    ∧ ∃ table, (⟨.getTable (cStr key), some table⟩ : Event Answer) ∈ turn.trace

/-- MySQL has answered a query with success. -/
def Succeeds : Prop := ∃ text, (⟨.query text, none⟩ : Event Answer) ∈ turn.trace

/-- A `DROP_STORE` of this very name has succeeded. -/
def Drops (key : Bytes) : Prop := turn.Succeeds ∧ erasedKey turn.message = some key

/-- The query of the operation has succeeded, and removes this store. -/
def Removes (name : Bytes) : Prop :=
  turn.Succeeds ∧ ∃ text, turn.message.effect = some (.query text) ∧ M.removes text name = true

end Turn

/-- **The names that are known** after some turns, the last of which comes
first: those looked up and not dropped since. -/
def Known : List Turn → Bytes → Prop
  | [], _ => False
  | turn :: before, key => turn.LooksUp key ∨ ¬ turn.Drops key ∧ Known before key

/-- **The turn spares what is known**: the stores it removes are known under
no name but the one it drops. -/
def Turn.Spares (M : MySQL) (before : List Turn) (turn : Turn) : Prop :=
  ∀ key, Known before key → turn.Removes M (cStr key) → erasedKey turn.message = some key

/-- **Every turn spares what is known by then.** -/
def SparesAll (M : MySQL) : List Turn → List Turn → Prop
  | _, [] => True
  | before, turn :: turns => turn.Spares M before ∧ SparesAll M (turn :: before) turns

theorem sparesAll_append {before turns turns' : List Turn} :
    SparesAll M before (turns ++ turns')
      ↔ SparesAll M before turns ∧ SparesAll M (turns.reverse ++ before) turns' := by
  induction turns generalizing before with
  | nil => exact (and_iff_right trivial).symm
  | cons turn turns ih =>
    rw [List.reverse_cons, List.append_assoc]
    exact (and_congr_right' ih).trans and_assoc.symm

/-- **The entries are those of the names that are known**, and they are
valid; the executor has no table in hand. -/
structure Tracked (before : List Turn) (w : World) : Prop extends Sound w where
  idle : w.watch.lookup = none
  known : ∀ key, (∃ table, w.entries key = some table) ↔ Known before key

/-! ## What one turn keeps -/

/-- An operation that makes a query looks nothing up. -/
theorem lookupKey_of_query {message : Message} {text : Bytes}
    (h : message.effect = some (.query text)) : lookupKey message = none := by
  cases message with
  | set operation =>
    obtain ⟨storeInfo, -, heq⟩ := Option.map_eq_some_iff.mp h
    cases heq
  | delete operation =>
    obtain ⟨storeInfo, -, heq⟩ := Option.map_eq_some_iff.mp h
    cases heq
  | get operation => cases h
  | _ => rfl

theorem not_succeeds_of_fetches {key : Option Bytes} {message : Message} {trace : Trace}
    (h : Fetches key trace) : ¬ Turn.Succeeds ⟨w, message, trace⟩ := by
  rintro ⟨text, hmem⟩
  have hs := h.quiet _ hmem
  simp [succeeded] at hs

/-- The stores and the entries after the query of a message and its
erasure. -/
theorem after_erasures (message : Message) (text : Bytes) :
    ((contract M).after w (⟨.query text, none⟩ :: erasures message)).stores = w.queried M text
      ∧ ∀ key, ((contract M).after w (⟨.query text, none⟩ :: erasures message)).entries key
          = if erasedKey message = some key then none else w.entries key := by
  unfold erasures
  cases hkey : erasedKey message with
  | none => exact ⟨rfl, fun key => rfl⟩
  | some erased =>
    refine ⟨rfl, fun key => ?_⟩
    show Function.update w.entries erased none key = _
    by_cases h : key = erased
    · rw [h, Function.update_self, if_pos rfl]
    · rw [Function.update_of_ne h, if_neg (fun h' => h (Option.some.inj h').symm)]

/-- An executor keeps to the monitor through a turn, and has no table in
hand at its end. -/
theorem allowed_turn (hidle : w.watch.lookup = none) {messagesTuple : FrameMessagesTuple}
    {s : LoopState} {message : Message} {trace : Trace} {o : Except Fault (Option LoopState)}
    (hrun : (executeMessage P messagesTuple s message).Runs trace o)
    (hadmitted : (contract M).Admitted w trace) :
    (contract M).Allowed w trace
      ∧ ∀ a, o = .ok a → ((contract M).after w trace).watch.lookup = none :=
  (Prog.Conforms.keeps (C := contract M) World.watch (fun _ _ h => h) (fun _ _ _ => rfl)
    (steady_executeMessage P messagesTuple s message w.watch hidle)).run hrun hadmitted

/-- A query and the erasure after it leave all entries valid exactly if the
stores that are removed have no entry but the one that is erased. -/
theorem valid_erasures_iff (hw : w.Valid) (message : Message) (text : Bytes) :
    ((contract M).after w (⟨.query text, none⟩ :: erasures message)).Valid
      ↔ ∀ key table, w.entries key = some table → M.removes text (cStr key) = true →
          erasedKey message = some key := by
  obtain ⟨hqueried, herased⟩ := after_erasures (M := M) (w := w) message text
  unfold World.Valid
  rw [hqueried]
  refine forall₂_congr (fun key table => ?_)
  rw [herased]
  by_cases hkey : erasedKey message = some key
  · rw [if_pos hkey]
    exact iff_of_true (fun h => nomatch h) (fun _ _ => hkey)
  · rw [if_neg hkey]
    refine forall_congr' (fun hentry => ?_)
    by_cases hremoves : M.removes text (cStr key) = true
    · rw [World.queried, if_pos hremoves]
      exact iff_of_false (fun h => nomatch h) (fun h => hkey (h hremoves))
    · rw [World.queried, if_neg hremoves, hw key table hentry]
      exact iff_of_true rfl (fun h => absurd h hremoves)

/-- **A turn leaves all entries valid exactly if it spares what is known.** -/
theorem valid_turn_iff {before : List Turn} (hw : Tracked before w)
    {messagesTuple : FrameMessagesTuple} {s : LoopState} {message : Message} {trace : Trace}
    {o : Except Fault (Option LoopState)}
    (hrun : (executeMessage P messagesTuple s message).Runs trace o)
    (hadmitted : (contract M).Admitted w trace) :
    ((contract M).after w trace).Valid ↔ Turn.Spares M before ⟨w, message, trace⟩ := by
  obtain ⟨hallowed, -⟩ := allowed_turn P hw.idle hrun hadmitted
  rcases executeMessage_ran P messagesTuple s message trace o hrun with
    hfetches | ⟨text, rest, htext, rfl, hrest⟩
  · refine iff_of_true (hw.run hallowed hadmitted hfetches.quiet).valid (fun key _ hremoves => ?_)
    exact absurd hremoves.1 (not_succeeds_of_fetches hfetches)
  · have hafter := after_of_leavesCache (M := M)
      (w := (contract M).after w (⟨.query text, none⟩ :: erasures message)) hrest
    have hvalid := valid_erasures_iff (M := M) hw.valid message text
    unfold World.Valid at hvalid ⊢
    rw [← List.cons_append, Contract.after_append, hafter.1, hafter.2, hvalid]
    refine forall_congr' (fun key => ?_)
    rw [← hw.known key]
    constructor
    · rintro h ⟨table, hentry⟩ ⟨-, text', htext', hremoves⟩
      obtain rfl := Effect.query.inj (Option.some.inj (htext.symm.trans htext'))
      exact h table hentry hremoves
    · intro h table hentry hremoves
      exact h ⟨table, hentry⟩ ⟨⟨text, .head _⟩, text, htext, hremoves⟩

/-- What is known after a turn are the entries there are. -/
theorem known_turn {before : List Turn} (hw : Tracked before w)
    {messagesTuple : FrameMessagesTuple} {s : LoopState} {message : Message} {trace : Trace}
    {o : Except Fault (Option LoopState)}
    (hrun : (executeMessage P messagesTuple s message).Runs trace o) (key : Bytes) :
    (∃ table, ((contract M).after w trace).entries key = some table)
      ↔ Known (⟨w, message, trace⟩ :: before) key := by
  rcases executeMessage_ran P messagesTuple s message trace o hrun with
    hfetches | ⟨text, rest, htext, rfl, hrest⟩
  · have hdrops : ¬ Turn.Drops ⟨w, message, trace⟩ key :=
      fun h => not_succeeds_of_fetches hfetches h.1
    have hlooks : (∃ table, (⟨.cacheInsert key table, ()⟩ : Event Answer) ∈ trace)
        ↔ Turn.LooksUp ⟨w, message, trace⟩ key :=
      (exists_congr (fun table => hfetches.inserts key table)).trans exists_and_left
    rw [entries_after hfetches.keeps, hlooks, hw.known, or_comm]
    exact or_congr_right (and_iff_right hdrops).symm
  · have hafter := after_of_leavesCache (M := M)
      (w := (contract M).after w (⟨.query text, none⟩ :: erasures message)) hrest
    -- an operation that makes a query looks nothing up
    have hlooks : ¬ Turn.LooksUp
        ⟨w, message, ⟨.query text, none⟩ :: (erasures message ++ rest)⟩ key :=
      fun h => Option.some_ne_none key (h.1.symm.trans (lookupKey_of_query htext))
    have hdrops : Turn.Drops
        ⟨w, message, ⟨.query text, none⟩ :: (erasures message ++ rest)⟩ key
          ↔ erasedKey message = some key :=
      and_iff_right ⟨text, .head _⟩
    rw [Known, or_iff_right hlooks, hdrops, ← hw.known, ← List.cons_append,
      Contract.after_append, hafter.2, (after_erasures message text).2]
    by_cases hkey : erasedKey message = some key
    · rw [if_pos hkey]
      exact iff_of_false (fun ⟨_, h⟩ => nomatch h) (fun h => h.1 hkey)
    · rw [if_neg hkey]
      exact (and_iff_right hkey).symm

/-- **A turn that spares what is known** keeps the invariant. -/
theorem Tracked.turn {before : List Turn} (hw : Tracked before w)
    {messagesTuple : FrameMessagesTuple} {s : LoopState} {message : Message} {trace : Trace}
    {a : Option LoopState} (hrun : (executeMessage P messagesTuple s message).Runs trace (.ok a))
    (hadmitted : (contract M).Admitted w trace)
    (hspares : Turn.Spares M before ⟨w, message, trace⟩) :
    Tracked (⟨w, message, trace⟩ :: before) ((contract M).after w trace) := by
  have hlookup := (allowed_turn P hw.idle hrun hadmitted).2 a rfl
  exact {
    valid := (valid_turn_iff P hw hrun hadmitted).mpr hspares
    inHand := fun name table h => absurd (hlookup.symm.trans h) (Option.some_ne_none _).symm
    idle := hlookup
    known := known_turn P hw hrun }

/-! ## Runs -/

/-- **The loop over the messages of a tuple**, turn by turn, with the world
at its end; and whether the executor goes on, or has left the defined
behaviour of its program. -/
inductive Turns (M : MySQL) (messagesTuple : FrameMessagesTuple) :
    World → LoopState → List Message → List Turn → World → Bool → Prop
  | done (w : World) (s : LoopState) : Turns M messagesTuple w s [] [] w true
  | next {w : World} {s s' : LoopState} {message : Message} {messages : List Message}
      {trace : Trace} {turns : List Turn} {w' : World} {goesOn : Bool}
      (hrun : (executeMessage P messagesTuple s message).Runs trace (.ok (some s')))
      (hadmitted : (contract M).Admitted w trace)
      (rest : Turns M messagesTuple ((contract M).after w trace) s' messages turns w' goesOn) :
    Turns M messagesTuple w s (message :: messages) (⟨w, message, trace⟩ :: turns) w' goesOn
  /-- The `break`. -/
  | stopped {w : World} {s : LoopState} {message : Message} {messages : List Message}
      {trace : Trace}
      (hrun : (executeMessage P messagesTuple s message).Runs trace (.ok none))
      (hadmitted : (contract M).Admitted w trace) :
    Turns M messagesTuple w s (message :: messages) [⟨w, message, trace⟩]
      ((contract M).after w trace) true
  | failed {w : World} {s : LoopState} {message : Message} {messages : List Message}
      {trace : Trace} {f : Fault}
      (hrun : (executeMessage P messagesTuple s message).Runs trace (.error f))
      (hadmitted : (contract M).Admitted w trace) :
    Turns M messagesTuple w s (message :: messages) [⟨w, message, trace⟩]
      ((contract M).after w trace) false

/-- **Tuples executed one after the other**, with all their turns. -/
inductive History (M : MySQL) :
    World → List FrameMessagesTuple → List Turn → World → Prop
  | nil (w : World) : History M w [] [] w
  | cons {w w' w'' : World} {messagesTuple : FrameMessagesTuple}
      {tuples : List FrameMessagesTuple} {turns turns' : List Turn}
      (first : Turns P M messagesTuple w ⟨none, []⟩ messagesTuple.messages turns w' true)
      (rest : History M w' tuples turns' w'') :
    History M w (messagesTuple :: tuples) (turns ++ turns') w''
  | failed {w w' : World} {messagesTuple : FrameMessagesTuple}
      {tuples : List FrameMessagesTuple} {turns : List Turn}
      (first : Turns P M messagesTuple w ⟨none, []⟩ messagesTuple.messages turns w' false) :
    History M w (messagesTuple :: tuples) turns w'

/-! ### The runs of a tuple -/

theorem within_complete (state : NdbTransactionState) :
    (complete P state).Within (fun c => c.leavesCache = true) (· = .columnType) := by
  refine Prog.Within.perform_bind rfl (fun result => ?_)
  unfold ndbExecuteCallback
  cases result with
  | failed =>
    refine Prog.Within.perform_bind rfl (fun _ => Prog.Within.perform_bind rfl (fun _ => ?_))
    exact ⟨rfl, fun _ => trivial⟩
  | ok =>
    refine ((operates_operationResults (F := (· = .columnType)) state.operations rfl).mono
      (fun _ => Call.leavesCache_of_isOperation) (fun _ h => h)).bind (fun results => ?_)
    exact Prog.Within.perform_bind rfl (fun _ => ⟨rfl, fun _ => trivial⟩)

/-- What comes after the last turn leaves the cache alone. -/
theorem within_finish (messagesTuple : FrameMessagesTuple) (s : LoopState) :
    (finish P messagesTuple s).Within (fun c => c.leavesCache = true) (· = .columnType) := by
  unfold finish
  cases s.transaction with
  | none => trivial
  | some transaction =>
    exact Prog.Within.perform_bind rfl (fun _ => within_complete P _)

theorem turns_of_serveFrom {messagesTuple : FrameMessagesTuple} {messages : List Message}
    {s : LoopState} {trace : Trace} {o : Except Fault Unit}
    (hrun : (serveFrom P messagesTuple messages s).Runs trace o)
    (hadmitted : (contract M).Admitted w trace) :
    ∃ turns w' goesOn, Turns P M messagesTuple w s messages turns w' goesOn
      ∧ ((contract M).after w trace).stores = w'.stores
      ∧ ((contract M).after w trace).entries = w'.entries := by
  induction messages generalizing w s trace with
  | nil =>
    have hleaves := ((within_finish P messagesTuple s).ensures trace o hrun).1
    exact ⟨[], w, true, .done w s, after_of_leavesCache hleaves⟩
  | cons message messages ih =>
    rw [serveFrom] at hrun
    rcases Prog.runs_bind_iff.mp hrun with
      ⟨f, rfl, hmessage⟩ | ⟨next, front, rest, rfl, hmessage, hrest⟩
    · exact ⟨_, _, false, .failed hmessage hadmitted, rfl, rfl⟩
    · obtain ⟨hfront, hadmitted⟩ := Contract.admitted_append.mp hadmitted
      rw [Contract.after_append]
      cases next with
      | none =>
        obtain ⟨rfl, -⟩ := Prog.runs_pure_iff.mp hrest
        exact ⟨_, _, true, .stopped hmessage hfront, rfl, rfl⟩
      | some s' =>
        obtain ⟨turns, w', goesOn, hturns, hafter⟩ := ih hrest hadmitted
        exact ⟨_, w', goesOn, .next hmessage hfront hturns, hafter⟩

/-- **The whole life of a tuple is made of its turns**, and what comes after
them changes neither the stores nor the entries. -/
theorem turns_of_serve {messagesTuple : FrameMessagesTuple} {trace : Trace}
    {o : Except Fault Unit} (hrun : (serve P messagesTuple).Runs trace o)
    (hadmitted : (contract M).Admitted w trace) :
    ∃ turns w' goesOn, Turns P M messagesTuple w ⟨none, []⟩ messagesTuple.messages turns w' goesOn
      ∧ ((contract M).after w trace).stores = w'.stores
      ∧ ((contract M).after w trace).entries = w'.entries := by
  rw [serve_eq] at hrun
  exact turns_of_serveFrom P hrun hadmitted

/-! ## Where the entries stay valid -/

/-- In a server that has just been started nothing is known. -/
theorem World.tracked_init (stores : Bytes → Option Nat) : Tracked [] (World.init stores) where
  valid _ _ h := nomatch h
  inHand _ _ h := nomatch h
  idle := rfl
  known _ := iff_of_false (fun ⟨_, h⟩ => nomatch h) id

/-- **The entries are valid throughout**: before every turn and at the end. -/
def ValidThroughout (turns : List Turn) (w : World) : Prop :=
  (∀ turn ∈ turns, turn.world.Valid) ∧ w.Valid

theorem validThroughout_cons {turn : Turn} {turns : List Turn} :
    ValidThroughout (turn :: turns) w ↔ turn.world.Valid ∧ ValidThroughout turns w := by
  unfold ValidThroughout
  rw [List.forall_mem_cons, and_assoc]

variable {P}

/-- The first turn of a tuple is executed where the tuple begins. -/
theorem ValidThroughout.start {messagesTuple : FrameMessagesTuple} {s : LoopState}
    {messages : List Message} {turns : List Turn} {w' : World} {goesOn : Bool}
    (hturns : Turns P M messagesTuple w s messages turns w' goesOn)
    (h : ValidThroughout turns w') : w.Valid := by
  cases hturns with
  | done => exact h.2
  | next => exact h.1 _ List.mem_cons_self
  | stopped => exact h.1 _ List.mem_cons_self
  | failed => exact h.1 _ List.mem_cons_self

/-- **The turns of a tuple** keep the entries valid exactly if they spare
what is known, and then keep the invariant. -/
theorem Tracked.turns {messagesTuple : FrameMessagesTuple} {s : LoopState}
    {messages : List Message} {before turns : List Turn} {w' : World} {goesOn : Bool}
    (h : Turns P M messagesTuple w s messages turns w' goesOn) (hw : Tracked before w) :
    (ValidThroughout turns w' ↔ SparesAll M before turns)
      ∧ (SparesAll M before turns → goesOn = true → Tracked (turns.reverse ++ before) w') := by
  induction h generalizing before with
  | done w s =>
    exact ⟨iff_of_true ⟨List.forall_mem_nil _, hw.valid⟩ trivial, fun _ _ => hw⟩
  | next hrun hadmitted rest ih =>
    rw [validThroughout_cons, and_iff_right hw.valid, List.reverse_cons, List.append_assoc]
    refine ⟨⟨fun h => ?_, fun h => ?_⟩, fun h => ?_⟩
    · have hspares := (valid_turn_iff P hw hrun hadmitted).mp (h.start rest)
      exact ⟨hspares, (ih (hw.turn P hrun hadmitted hspares)).1.mp h⟩
    · exact (ih (hw.turn P hrun hadmitted h.1)).1.mpr h.2
    · exact (ih (hw.turn P hrun hadmitted h.1)).2 h.2
  | stopped hrun hadmitted =>
    rw [validThroughout_cons, and_iff_right hw.valid]
    refine ⟨?_, fun h _ => hw.turn P hrun hadmitted h.1⟩
    exact ((and_iff_right (List.forall_mem_nil _)).trans
      (valid_turn_iff P hw hrun hadmitted)).trans (and_iff_left trivial).symm
  | failed hrun hadmitted =>
    rw [validThroughout_cons, and_iff_right hw.valid]
    refine ⟨?_, fun _ h => absurd h Bool.false_ne_true⟩
    exact ((and_iff_right (List.forall_mem_nil _)).trans
      (valid_turn_iff P hw hrun hadmitted)).trans (and_iff_left trivial).symm

/-- The first turn of a history is executed where the history begins. -/
theorem ValidThroughout.start_history {tuples : List FrameMessagesTuple} {turns : List Turn}
    {w' : World} (hhistory : History P M w tuples turns w') (h : ValidThroughout turns w') :
    w.Valid := by
  induction hhistory with
  | nil w => exact h.2
  | cons first rest ih =>
    obtain ⟨hfirst, hrest⟩ := List.forall_mem_append.mp h.1
    exact ValidThroughout.start first ⟨hfirst, ih ⟨hrest, h.2⟩⟩
  | failed first => exact h.start first

theorem Tracked.history {tuples : List FrameMessagesTuple} {before turns : List Turn} {w' : World}
    (h : History P M w tuples turns w') (hw : Tracked before w) :
    ValidThroughout turns w' ↔ SparesAll M before turns := by
  induction h generalizing before with
  | nil w => exact iff_of_true ⟨List.forall_mem_nil _, hw.valid⟩ trivial
  | @cons w w' w'' messagesTuple tuples turns turns' first rest ih =>
    obtain ⟨hvalid, hnext⟩ := hw.turns first
    rw [sparesAll_append, ← hvalid]
    constructor
    · rintro ⟨hturns, hw''⟩
      obtain ⟨hfirst, hrest⟩ := List.forall_mem_append.mp hturns
      have hstart := ValidThroughout.start_history rest ⟨hrest, hw''⟩
      have hturns' : ValidThroughout turns w' := ⟨hfirst, hstart⟩
      exact ⟨hturns', (ih (hnext (hvalid.mp hturns') rfl)).mp ⟨hrest, hw''⟩⟩
    · rintro ⟨hturns', hspares⟩
      obtain ⟨hrest, hw''⟩ := (ih (hnext (hvalid.mp hturns') rfl)).mpr hspares
      exact ⟨List.forall_mem_append.mpr ⟨hturns'.1, hrest⟩, hw''⟩
  | failed first => exact (hw.turns first).1

/-! ### Runs of single operations -/

/-- The table of a store in version 1. -/
def firstTable : Table := ⟨[⟨ascii "k", true⟩], 1, by decide, by decide⟩

/-- A database with the store `t`, in version 1. -/
def oneStore (name : Bytes) : Option Nat := if name = ascii "t" then some 1 else none

/-- A MySQL that knows how to drop `t` and the database `vdb` with all of
its stores. -/
def dropping : MySQL where
  removes text name := text = ascii "DROP DATABASE vdb"
    || (text = ascii "DROP TABLE t" && name = ascii "t")
  creates _ _ _ := none

/-- A tuple with one operation. -/
def single (message : Message) : FrameMessagesTuple := ⟨[], [], [message]⟩

/-- `SET` of a store, without columns. -/
def setOf (storeName : Bytes) : Message := .set ⟨[⟨storeName⟩], [], []⟩

/-- The calls of a `SET` of a store that is not in the cache: the table is
looked up and inserted, but no transaction can be started. -/
def setTrace (storeName : Bytes) (bytes : Bytes) : Trace :=
  [⟨.cacheGet (cStr storeName), none⟩, ⟨.getTable (cStr storeName), some firstTable⟩,
    ⟨.cacheInsert storeName firstTable, ()⟩, ⟨.startTransaction firstTable [], none⟩,
    ⟨.send [] bytes, ()⟩]

theorem set_runs (P : Protobuf) (storeName : Bytes) :
    ∃ bytes, (executeMessage P (single (setOf storeName)) ⟨none, []⟩ (setOf storeName)).Runs
      (setTrace storeName bytes) (.ok none) :=
  ⟨_, .call (.call (.call (.call (.call (.pure _)))))⟩

/-- The calls of a `DROP_DATABASE` that succeeds. -/
def dropDatabaseTrace (operation : DropDatabaseOperation) (bytes : Bytes) : Trace :=
  [⟨.query (cStr (dropDatabaseText operation)), none⟩, ⟨.send [] bytes, ()⟩]

theorem dropDatabase_runs (P : Protobuf) (operation : DropDatabaseOperation) :
    ∃ bytes, (executeMessage P (single (.dropDatabase operation)) ⟨none, []⟩
      (.dropDatabase operation)).Runs (dropDatabaseTrace operation bytes)
        (.ok (some ⟨none, []⟩)) :=
  ⟨_, .call (.call (.pure _))⟩

/-- The calls of a `DROP_STORE` that succeeds. -/
def dropStoreTrace (operation : DropStoreOperation) (bytes : Bytes) : Trace :=
  [⟨.query (cStr (dropStoreText operation)), none⟩,
    ⟨.cacheErase operation.storeInfo.storeName, ()⟩, ⟨.send [] bytes, ()⟩]

theorem dropStore_runs (P : Protobuf) (operation : DropStoreOperation) :
    ∃ bytes, (executeMessage P (single (.dropStore operation)) ⟨none, []⟩
      (.dropStore operation)).Runs (dropStoreTrace operation bytes) (.ok (some ⟨none, []⟩)) :=
  ⟨_, .call (.call (.call (.pure _)))⟩

/-- The world after the `SET`. -/
def afterSet (storeName bytes : Bytes) : World :=
  (contract dropping).after (World.init oneStore) (setTrace storeName bytes)

/-- A tuple with one operation, and then others. -/
theorem history_single {P : Protobuf} {M : MySQL} {w w' : World} {message : Message}
    {trace : Trace} {s : LoopState} {tuples : List FrameMessagesTuple} {turns : List Turn}
    (hrun : (executeMessage P (single message) ⟨none, []⟩ message).Runs trace (.ok (some s)))
    (hadmitted : (contract M).Admitted w trace)
    (rest : History P M ((contract M).after w trace) tuples turns w') :
    History P M w (single message :: tuples) (⟨w, message, trace⟩ :: turns) w' :=
  .cons (.next hrun hadmitted (.done _ _)) rest

/-- A `SET` of the store `t`, under this name or another that is read as it,
and then other tuples. -/
theorem history_set {P : Protobuf} {storeName : Bytes} (hname : cStr storeName = ascii "t")
    {bytes : Bytes} (hset : (executeMessage P (single (setOf storeName)) ⟨none, []⟩
      (setOf storeName)).Runs (setTrace storeName bytes) (.ok none))
    {tuples : List FrameMessagesTuple} {turns : List Turn} {w : World}
    (rest : History P dropping (afterSet storeName bytes) tuples turns w) :
    History P dropping (World.init oneStore) (single (setOf storeName) :: tuples)
      (⟨World.init oneStore, setOf storeName, setTrace storeName bytes⟩ :: turns) w := by
  have hadmitted : (contract dropping).Admitted (World.init oneStore)
      (setTrace storeName bytes) := by
    refine ⟨rfl, fun table h => ?_, trivial, trivial, trivial, trivial⟩
    obtain rfl := Option.some.inj h
    show oneStore (cStr storeName) = some 1
    rw [hname]
    rfl
  exact .cons (.stopped hset hadmitted) rest

/-- **In a run of tuples every entry of the cache is valid throughout exactly
if every turn spares what is known by then.** -/
theorem valid_iff_sparesAll {M : MySQL} {stores : Bytes → Option Nat}
    {tuples : List FrameMessagesTuple} {turns : List Turn} {w : World}
    (h : History P M (World.init stores) tuples turns w) :
    ValidThroughout turns w ↔ SparesAll M [] turns :=
  (World.tracked_init stores).history h

/-- **Two stale entries**: of a store whose database has been dropped, and
of one that was dropped under its own name while the cache has it under
another. -/
theorem stale_after_drop_of_set :
    (∃ turns w, History wireFormat dropping (World.init oneStore)
        [single (setOf (ascii "t")), single (.dropDatabase ⟨ascii "vdb"⟩)] turns w
        ∧ ¬ w.Valid)
      ∧ ∃ turns w, History wireFormat dropping (World.init oneStore)
        [single (setOf (ascii "t" ++ 0 :: ascii "x")), single (.dropStore ⟨⟨ascii "t"⟩⟩)] turns w
        ∧ ¬ w.Valid := by
  constructor
  · obtain ⟨bytes, hset⟩ := set_runs wireFormat (ascii "t")
    obtain ⟨bytes', hdrop⟩ := dropDatabase_runs wireFormat ⟨ascii "vdb"⟩
    refine ⟨_, _, history_set (by decide) hset
      (history_single hdrop ⟨trivial, trivial, trivial⟩ (.nil _)), fun hvalid => ?_⟩
    have hstore := hvalid (ascii "t") firstTable rfl
    cases hstore
  · obtain ⟨bytes, hset⟩ := set_runs wireFormat (ascii "t" ++ 0 :: ascii "x")
    obtain ⟨bytes', hdrop⟩ := dropStore_runs wireFormat ⟨⟨ascii "t"⟩⟩
    refine ⟨_, _, history_set (by decide) hset
      (history_single hdrop ⟨trivial, trivial, trivial, trivial⟩ (.nil _)), fun hvalid => ?_⟩
    have hstore := hvalid (ascii "t" ++ 0 :: ascii "x") firstTable rfl
    cases hstore

/-- After a `SET` and the `DROP_STORE` of its store, the database can be
dropped: all that was known is dropped with its store. -/
theorem valid_iff_sparesAll_dropStore :
    ∃ turns w, History wireFormat dropping (World.init oneStore)
        [single (setOf (ascii "t")), single (.dropStore ⟨⟨ascii "t"⟩⟩),
          single (.dropDatabase ⟨ascii "vdb"⟩)] turns w
      ∧ (∃ turn ∈ turns, turn.LooksUp (ascii "t")) ∧ w.stores (ascii "t") = none
      ∧ SparesAll dropping [] turns ∧ ValidThroughout turns w := by
  obtain ⟨bytes, hset⟩ := set_runs wireFormat (ascii "t")
  obtain ⟨bytes', hdrop⟩ := dropStore_runs wireFormat ⟨⟨ascii "t"⟩⟩
  obtain ⟨bytes'', hdatabase⟩ := dropDatabase_runs wireFormat ⟨ascii "vdb"⟩
  have hhistory := history_set (by decide) hset
    (history_single hdrop ⟨trivial, trivial, trivial, trivial⟩
      (history_single hdatabase ⟨trivial, trivial, trivial⟩ (.nil _)))
  refine ⟨_, _, hhistory, ⟨_, List.mem_cons_self, rfl, firstTable, .tail _ (.head _)⟩, rfl,
    ?spares, (valid_iff_sparesAll hhistory).mpr ?spares⟩
  refine ⟨?_, ?_, ?_, trivial⟩
  · exact fun key hknown => hknown.elim
  · rintro key (⟨hkey, -⟩ | ⟨-, hknown⟩) -
    · exact hkey
    · exact hknown.elim
  · rintro key (⟨hkey, -⟩ | ⟨hdrops, ⟨hkey, -⟩ | ⟨-, hknown⟩⟩) -
    · cases hkey
    · exact absurd ⟨⟨_, .head _⟩, hkey⟩ hdrops
    · exact hknown.elim

end SchemaRuns

end VoloDB
