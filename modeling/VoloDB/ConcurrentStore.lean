import VoloDB.DeskRuns

/-!
# The server as a store with atomic operations

`KeyValueStore` is about an executor that has the database alone, with one
transaction at a time. A server has many executors, each with up to a thousand
transactions open, and their operations reach the contents in an order that
nobody has chosen.

What the clients may rely on then is an object with atomic operations
(`atomicStore`): what a tuple asks for takes effect between the moment at which
an executor takes it and the moment at which it is replied to, each of its
messages at one moment and on the contents as they are then, if the reply says
that it has succeeded, and nothing of it if it says that it has failed.

Whatever the executors and NDB do, one thing after the other, the tuples they
take and the replies they give are those of such an object, which comes to the
same contents (`executors_refine_atomicStore`). So a row that has been set is
read by everyone who asks for it later (`executors_read_what_was_set`).
-/

namespace VoloDB

open Interaction NDBMessageProcessor NDBMessageExecutor

/-! ## The object -/

/-- What the result of a message tells of the contents that it has met: for a
`GET` by the primary key, the row there is. -/
def ReadsByKey {C : Catalog} (d : C.Contents) : Message → OperationResult → Prop
  | .get operation, result => ∀ storeInfo table, operation.storeInfo.head? = some storeInfo →
      C.table (cStr storeInfo.storeName) = some table → operation.path table = .simpleRead →
        ReadsRows d (cStr storeInfo.storeName) table operation result.row
  | _, _ => True

/-- **The reply says that the transaction has failed.** -/
def IsRefusal (P : Protobuf) (t : FrameMessagesTuple) (reply : Bytes × Bytes) : Prop :=
  reply.1 = t.identifier ∧ ∃ result : Result, reply.2 = replyBytes P result
    ∧ result.transactionIdentifier = t.transactionID ∧ result.errorCode ≠ none

/-- **The reply says that it has succeeded**, with a result for each message. -/
def IsAnswer (P : Protobuf) {C : Catalog} (t : FrameMessagesTuple) (ds : List C.Contents)
    (reply : Bytes × Bytes) : Prop :=
  reply.1 = t.identifier ∧ ∃ result : Result, reply.2 = replyBytes P result
    ∧ result.transactionIdentifier = t.transactionID ∧ result.errorCode = none
    ∧ result.result.map (·.type) = t.messages.map FrameUtils.getFrameType
    ∧ ∀ (k : ℕ) (message : Message) (d : C.Contents) (r : OperationResult),
      t.messages[k]? = some message → ds[k]? = some d → result.result[k]? = some r →
        ReadsByKey d message r

/-- **The store as an object with atomic operations**: its requests are the
tuples, and their operations the messages. -/
def atomicStore (P : Protobuf) (C : Catalog) :
    Atomic.Object C.Contents FrameMessagesTuple Message (Bytes × Bytes) where
  operations := FrameMessagesTuple.messages
  apply message d := Catalog.write message.write d
  refuses := IsRefusal P
  answers := IsAnswer P

variable {P : Protobuf} {C : Catalog} {ι : Type} [DecidableEq ι]

/-- A tuple is taken by an executor, or replied to. -/
abbrev Seen (ι : Type) : Type := ι × (FrameMessagesTuple ⊕ (Bytes × Bytes))

/-- What is seen of the object: the requests and the responses, with the
executors whose tickets they have. -/
def seenOf : Atomic.Label FrameMessagesTuple (Bytes × Bytes) (ι × ℕ) → Option (Seen ι)
  | .invoke τ t => some (τ.1, .inl t)
  | .effect _ _ => none
  | .respond τ reply => some (τ.1, .inr reply)

/-- **What is seen of the executors**: the tuples they take, and their
replies. -/
def seenBy : Event (fun m : Move ι Call (Storage.Effect ι) => m.Reply Answer) → Option (Seen ι)
  | ⟨.call i (.take t), _⟩ => some (i, .inl t)
  | ⟨.call i (.send identifier bytes), _⟩ => some (i, .inr (identifier, bytes))
  | _ => none

/-! ## Desks and tickets -/

/-- The numbers of the tuples that have not been replied to. -/
def Desk.numbers (s : Desk) : List ℕ :=
  s.waiting.map Prepared.number ++ s.called.toList.map (·.prepared.number)
    ++ s.taken.toList.map (fun _ => s.count)

/-- The transaction is that of a request, and has met what this has met. -/
def Prepared.IsEntry (w : Prepared) (met : ℕ → List (Option C.Contents))
    (pending : ℕ → Option (Atomic.Pending (atomicStore P C))) : Prop :=
  w.Faithful C ∧ ∃ p, pending w.number = some p ∧ p.request = w.messagesTuple
    ∧ p.met = met w.number

/-- **The desk of an executor matches the tickets with its numbers.** -/
structure Desk.Matches (s : Desk) (met : ℕ → List (Option C.Contents))
    (pending : ℕ → Option (Atomic.Pending (atomicStore P C))) : Prop where
  taken : ∀ t ∈ s.taken, pending s.count = some (.new _ t)
  waiting : ∀ w ∈ s.waiting, w.IsEntry met pending
  called : ∀ c ∈ s.called, c.prepared.IsEntry met pending
    ∧ CodeOf c.code (met c.prepared.number)
    ∧ ∀ read ∈ c.reads, c.prepared.Shows (met c.prepared.number) read.1 read.2
  alone : s.taken = none ∨ s.called = none
  nodup : s.numbers.Nodup
  fresh : ∀ n, s.count < n → pending n = none

variable {s s' : Desk} {met : ℕ → List (Option C.Contents)}
  {pending : ℕ → Option (Atomic.Pending (atomicStore P C))}

/-- What happens to other numbers does not matter. -/
theorem Prepared.IsEntry.of_ne {w : Prepared} (h : w.IsEntry met pending) {n : ℕ}
    (hn : w.number ≠ n) (m : List (Option C.Contents))
    (p : Option (Atomic.Pending (atomicStore P C))) :
    w.IsEntry (Function.update met n m) (Function.update pending n p) := by
  unfold IsEntry
  rw [Function.update_of_ne hn, Function.update_of_ne hn]
  exact h

/-- The desk has these books, and the same count. -/
theorem Desk.Matches.of_eq (h : s.Matches met pending) (hcount : s'.count = s.count)
    (htaken : s'.taken = s.taken) (hwaiting : s'.waiting = s.waiting)
    (hcalled : s'.called = s.called) : s'.Matches met pending := by
  obtain ⟨_, _, _, _, _, _⟩ := s
  obtain ⟨_, _, _, _, _, _⟩ := s'
  obtain rfl := hcount
  obtain rfl := htaken
  obtain rfl := hwaiting
  obtain rfl := hcalled
  exact ⟨h.1, h.2, h.3, h.4, h.5, h.6⟩

/-- A number that the desk does not hold. -/
theorem Desk.Matches.update (h : s.Matches met pending) {n : ℕ} (hn : n ∉ s.numbers)
    (hcount : n ≤ s.count) (m : List (Option C.Contents))
    (p : Option (Atomic.Pending (atomicStore P C))) :
    s.Matches (Function.update met n m) (Function.update pending n p) := by
  have hwaiting : ∀ w ∈ s.waiting, w.number ≠ n := by
    rintro w hw rfl
    exact hn (List.mem_append_left _ (List.mem_append_left _ (List.mem_map_of_mem hw)))
  have hcalled : ∀ c ∈ s.called, c.prepared.number ≠ n := by
    rintro c hc rfl
    exact hn (List.mem_append_left _ (List.mem_append_right _
      (List.mem_map_of_mem (Option.mem_toList.mpr hc))))
  refine ⟨fun t ht => ?_, fun w hw => (h.waiting w hw).of_ne (hwaiting w hw) m p, fun c hc => ?_,
    h.alone, h.nodup, fun k hk => ?_⟩
  · have hne : s.count ≠ n := by
      rintro rfl
      exact hn (List.mem_append_right _ (List.mem_map.mpr ⟨t, Option.mem_toList.mpr ht, rfl⟩))
    rw [Function.update_of_ne hne]
    exact h.taken t ht
  · obtain ⟨hentry, hcode, hreads⟩ := h.called c hc
    refine ⟨hentry.of_ne (hcalled c hc) m p, ?_, ?_⟩
    · rwa [Function.update_of_ne (hcalled c hc)]
    · rwa [Function.update_of_ne (hcalled c hc)]
  · rw [Function.update_of_ne (by omega)]
    exact h.fresh k hk

/-- The numbers a desk holds are not beyond its count. -/
theorem Desk.Matches.number_le (h : s.Matches met pending) {w : Prepared}
    (hw : w.IsEntry met pending) : w.number ≤ s.count := by
  by_contra hlt
  obtain ⟨-, p, hp, -⟩ := hw
  rw [h.fresh _ (not_le.mp hlt)] at hp
  exact nomatch hp

/-! ## What an executor does -/

/-- A tuple is taken, and gets the next number. -/
theorem Desk.Matches.take (h : s.Matches met pending) (htaken : s.taken = none)
    (hcalled : s.called = none) (t : FrameMessagesTuple) :
    (s.next C (.take t) ()).Matches met
      (Function.update pending (s.count + 1) (some (.new _ t))) := by
  have hfresh : ∀ {w : Prepared}, w.IsEntry met pending → w.number ≠ s.count + 1 := by
    intro w hw heq
    have hle := h.number_le hw
    omega
  have hnumbers : s.numbers = s.waiting.map Prepared.number := by
    unfold Desk.numbers
    rw [htaken, hcalled]
    exact (List.append_nil _).trans (List.append_nil _)
  have hnodup := h.nodup
  rw [hnumbers] at hnodup
  refine ⟨fun t' ht' => ?_, fun w hw => ?_, fun c hc => ?_, Or.inr hcalled, ?_, fun n hn => ?_⟩
  · obtain rfl : t = t' := Option.some.inj ht'
    exact Function.update_self _ _ _
  · obtain ⟨hfaithful, hentry⟩ := h.waiting w hw
    refine ⟨hfaithful, ?_⟩
    rw [Function.update_of_ne (hfresh (h.waiting w hw))]
    exact hentry
  · exact absurd (hcalled.symm.trans hc) (Option.some_ne_none c).symm
  · show (s.waiting.map Prepared.number ++ s.called.toList.map _ ++ [s.count + 1]).Nodup
    rw [hcalled, Option.toList_none, List.map_nil, List.append_nil, List.nodup_append_comm]
    refine List.nodup_cons.mpr ⟨fun hmem => ?_, hnodup⟩
    obtain ⟨w, hw, hnumber⟩ := List.mem_map.mp hmem
    exact hfresh (h.waiting w hw) hnumber
  · have hlt : s.count + 1 < n := hn
    rw [Function.update_of_ne (by omega)]
    exact h.fresh n (by omega)

/-- What the tuple asks for is prepared. -/
theorem Desk.Matches.prepare (h : s.Matches met pending) {t : FrameMessagesTuple}
    (htaken : s.taken = some t) (hcalled : s.called = none) {state : NdbTransactionState}
    (hfaithful : (s.prepare state t).Faithful C) :
    (s.next C (.executeAsynchPrepare state) ()).Matches
      (Function.update met s.count (.replicate (s.members state.transaction).length none))
      pending := by
  have hnodup := h.nodup
  unfold Desk.numbers at hnodup
  rw [htaken, hcalled] at hnodup
  have hwaiting : (s.next C (.executeAsynchPrepare state) ()).waiting
      = s.waiting ++ [s.prepare state t] := by
    show s.waiting ++ s.taken.toList.map (s.prepare state) = _
    rw [htaken]
    rfl
  have hne : ∀ w ∈ s.waiting, w.number ≠ s.count := by
    intro w hw heq
    refine (List.nodup_append'.mp hnodup).2.2 (List.mem_append_left _ (List.mem_map_of_mem hw)) ?_
    rw [heq]
    exact List.mem_cons_self
  refine ⟨fun t' ht' => (nomatch ht' : False).elim, fun w hw => ?_, fun c hc => ?_, Or.inl rfl,
    ?_, h.fresh⟩
  · rw [hwaiting] at hw
    rcases List.mem_append.mp hw with hw | hw
    · obtain ⟨hfaithful', hentry⟩ := h.waiting w hw
      refine ⟨hfaithful', ?_⟩
      rw [Function.update_of_ne (hne w hw)]
      exact hentry
    · obtain rfl := List.mem_singleton.mp hw
      refine ⟨hfaithful, _, h.taken t htaken, rfl, ?_⟩
      -- there are as many operations as messages
      have hlength : (s.members state.transaction).length = t.messages.length := by
        have htold := congrArg List.length hfaithful.told_eq
        rw [List.length_map] at htold
        exact (List.length_map _).symm.trans (htold.trans hfaithful.realizes.length_eq.symm)
      show List.replicate t.messages.length none = Function.update met s.count _ s.count
      rw [Function.update_self, hlength]
  · exact absurd (hcalled.symm.trans hc) (Option.some_ne_none c).symm
  · show ((s.next C (.executeAsynchPrepare state) ()).waiting.map Prepared.number
      ++ s.called.toList.map _ ++ []).Nodup
    rw [hwaiting, hcalled, List.map_append, Option.toList_none, List.map_nil, List.append_nil,
      List.append_nil]
    rwa [Option.toList_none, List.map_nil, List.append_nil] at hnodup

/-- What is found first is what is erased. -/
theorem perm_cons_eraseP {α : Type} {p : α → Bool} {l : List α} {a : α} (h : l.find? p = some a) :
    l.Perm (a :: l.eraseP p) := by
  induction l with
  | nil => exact nomatch h
  | cons b l ih =>
    by_cases hb : p b = true
    · rw [List.find?_cons_of_pos hb] at h
      obtain rfl := Option.some.inj h
      rw [List.eraseP_cons_of_pos hb]
    · rw [List.find?_cons_of_neg hb] at h
      rw [List.eraseP_cons_of_neg hb]
      exact ((ih h).cons b).trans (.swap _ _ _)

/-- The callback of a transaction is entered. -/
theorem Desk.Matches.callback (h : s.Matches met pending) (htaken : s.taken = none)
    (hcalled : s.called = none) {state : NdbTransactionState} {w : Prepared}
    (hfind : s.find state = some w) {code : ReturnCode} (hcode : CodeOf code (met w.number)) :
    (s.next C (.callback state) code).Matches met pending := by
  have hperm := perm_cons_eraseP hfind
  have hnext : (s.next C (.callback state) code).called = some ⟨w, code, []⟩ := by
    show (s.find state).map _ = _
    rw [hfind]
    rfl
  refine ⟨fun t ht => ?_, fun w' hw' => ?_, fun c hc => ?_, Or.inl htaken, ?_, h.fresh⟩
  · exact absurd (htaken.symm.trans ht) (Option.some_ne_none t).symm
  · exact h.waiting w' (List.mem_of_mem_eraseP hw')
  · obtain rfl := Option.some.inj (hnext.symm.trans hc)
    exact ⟨h.waiting w (List.mem_of_find?_eq_some hfind), hcode,
      fun read hread => absurd hread List.not_mem_nil⟩
  · have hnodup := h.nodup
    unfold Desk.numbers at hnodup ⊢
    rw [htaken, hcalled, Option.toList_none, Option.toList_none, List.map_nil, List.map_nil,
      List.append_nil, List.append_nil] at hnodup
    rw [hnext]
    show ((s.waiting.eraseP _).map Prepared.number ++ [w.number] ++ s.taken.toList.map _).Nodup
    rw [htaken, Option.toList_none, List.map_nil, List.append_nil]
    exact List.nodup_append_comm.mp ((hperm.map _).nodup hnodup)

/-- The records of a row are read. -/
theorem Desk.Matches.records (h : s.Matches met pending) {pointer : Nat} {snapshot : Snapshot}
    (hshows : ∀ c ∈ s.called, c.prepared.Shows (met c.prepared.number) pointer snapshot) :
    (s.next C (.records pointer) snapshot).Matches met pending := by
  cases hcalled : s.called with
  | none =>
    refine h.of_eq rfl rfl rfl ?_
    show s.called.map _ = s.called
    rw [hcalled]
    rfl
  | some c =>
    have hnext : (s.next C (.records pointer) snapshot).called
        = some (c.read [(pointer, snapshot)]) := by
      show s.called.map _ = _
      rw [hcalled]
      rfl
    obtain ⟨hentry, hcode, hreads⟩ := h.called c hcalled
    have htaken : s.taken = none :=
      h.alone.resolve_right (fun hnone => Option.some_ne_none c (hcalled.symm.trans hnone))
    refine ⟨h.taken, h.waiting, fun c' hc' => ?_, Or.inl htaken, ?_, h.fresh⟩
    · obtain rfl := Option.some.inj (hnext.symm.trans hc')
      refine ⟨hentry, hcode, fun read hread => ?_⟩
      rcases List.mem_append.mp hread with hread | hread
      · exact hreads read hread
      · obtain rfl := List.mem_singleton.mp hread
        exact hshows c hcalled
    · have hnodup := h.nodup
      unfold Desk.numbers at hnodup ⊢
      rw [hnext]
      rw [hcalled] at hnodup
      exact hnodup

/-- **A reply** ends what it is about, and takes its ticket back. -/
theorem Desk.Matches.reply (h : s.Matches met pending) {n : ℕ}
    (hn : n ∈ s.called.toList.map (·.prepared.number)
      ++ s.taken.toList.map (fun _ => s.count)) (identifier bytes : Bytes) :
    (s.next C (.send identifier bytes) ()).Matches met (Function.update pending n none) := by
  have hbooks := Desk.Books.next_send (C := C) (s := s) ⟨rfl, rfl, rfl⟩ h.alone identifier bytes
  have hcount : (s.next C (.send identifier bytes) ()).count = s.count := by
    show (if s.called.isSome = true then { s with called := none }
      else { s with taken := none } : Desk).count = _
    split <;> rfl
  have hnodup := h.nodup
  unfold Desk.numbers at hnodup
  rw [List.append_assoc] at hnodup
  obtain ⟨hwaiting, -, hdisjoint⟩ := List.nodup_append'.mp hnodup
  have hnumbers : (s.next C (.send identifier bytes) ()).numbers
      = s.waiting.map Prepared.number := by
    unfold Desk.numbers
    rw [hbooks.waiting_eq, hbooks.taken_eq, hbooks.called_eq]
    exact (List.append_nil _).trans (List.append_nil _)
  -- what is left at the desk has other numbers
  have hleft : (s.next C (.send identifier bytes) ()).Matches met pending := by
    refine ⟨fun t ht => ?_, fun w hw => ?_, fun c hc => ?_, Or.inl hbooks.taken_eq,
      hnumbers ▸ hwaiting, fun k hk => ?_⟩
    · exact absurd (hbooks.taken_eq.symm.trans ht) (Option.some_ne_none t).symm
    · exact h.waiting w (hbooks.waiting_eq ▸ hw)
    · exact absurd (hbooks.called_eq.symm.trans hc) (Option.some_ne_none c).symm
    · exact h.fresh k (hcount ▸ hk)
  have hle : n ≤ s.count := by
    rcases List.mem_append.mp hn with hn | hn
    · obtain ⟨c, hc, rfl⟩ := List.mem_map.mp hn
      exact h.number_le (h.called c (Option.mem_toList.mp hc)).1
    · obtain ⟨-, -, rfl⟩ := List.mem_map.mp hn
      exact Nat.le_refl _
  have hupdate := hleft.update (n := n) (hnumbers ▸ fun hmem => hdisjoint hmem hn) (hcount ▸ hle)
    (met n) none
  rwa [Function.update_eq_self] at hupdate

/-! ## What takes effect -/

/-- **An operation takes effect**, for the ticket of its tuple as well. -/
theorem Desk.Matches.effect (h : s.Matches met pending) {w : Prepared} (hw : w ∈ s.waiting)
    {p : Atomic.Pending (atomicStore P C)} (hp : pending w.number = some p) (k : ℕ)
    (d : C.Contents) :
    s.Matches (Function.update met w.number ((met w.number).set k (some d)))
      (Function.update pending w.number (some (p.meet k d))) := by
  have hmem : w.number ∈ s.waiting.map Prepared.number := List.mem_map_of_mem hw
  have hnodup := h.nodup
  unfold Desk.numbers at hnodup
  rw [List.append_assoc] at hnodup
  obtain ⟨hnotCalled, hnotTaken⟩ := not_or.mp (fun hother =>
    (List.nodup_append'.mp hnodup).2.2 hmem (List.mem_append.mpr hother))
  have hle := h.number_le (h.waiting w hw)
  refine ⟨fun t ht => ?_, fun w' hw' => ?_, fun c hc => ?_, h.alone, h.nodup, fun n hn => ?_⟩
  · have hne : s.count ≠ w.number := fun heq => hnotTaken
      (List.mem_map.mpr ⟨t, Option.mem_toList.mpr ht, heq⟩)
    rw [Function.update_of_ne hne]
    exact h.taken t ht
  · by_cases heq : w'.number = w.number
    · obtain ⟨hfaithful, p', hp', hrequest, hmet⟩ := h.waiting w' hw'
      rw [heq] at hp' hmet
      obtain rfl : p = p' := Option.some.inj (hp.symm.trans hp')
      refine ⟨hfaithful, p.meet k d, ?_, hrequest, ?_⟩
      · rw [heq, Function.update_self]
      · rw [heq, Function.update_self, ← hmet]
        rfl
    · exact (h.waiting w' hw').of_ne heq _ _
  · have hne : c.prepared.number ≠ w.number := fun heq => hnotCalled
      (List.mem_map.mpr ⟨c, Option.mem_toList.mpr hc, heq⟩)
    obtain ⟨hentry, hcode, hreads⟩ := h.called c hc
    rw [Function.update_of_ne hne]
    exact ⟨hentry.of_ne hne _ _, hcode, hreads⟩
  · rw [Function.update_of_ne (by omega)]
    exact h.fresh n hn

/-! ## The simulation -/

/-- **The storage matches the object**: they have the same contents, and each
desk matches the tickets of its executor. -/
structure Storage.Matches (s : Storage ι C) (a : Atomic.State (atomicStore P C) (ι × ℕ)) :
    Prop where
  contents_eq : a.contents = s.contents
  desk : ∀ i, (s.desk i).Matches (s.met i) (fun n => a.pending (i, n))

omit [DecidableEq ι] in
theorem Storage.matches_start (d : C.Contents) :
    (Storage.start ι d).Matches (Atomic.State.idle (atomicStore P C) d) :=
  ⟨rfl, fun _ => ⟨fun _ ht => (nomatch ht : False).elim, fun _ hw => absurd hw List.not_mem_nil,
    fun _ hc => (nomatch hc : False).elim, Or.inl rfl, List.nodup_nil, fun _ _ => rfl⟩⟩

variable {i : ι} {st st' : Storage ι C} {a a' : Atomic.State (atomicStore P C) (ι × ℕ)}

/-- The tickets of an executor after one of them. -/
theorem pending_set (n : ℕ) (p : Option (Atomic.Pending (atomicStore P C))) :
    (fun m => (a.set (i, n) p).pending (i, m))
      = Function.update (fun m => a.pending (i, m)) n p := by
  funext m
  by_cases hm : m = n
  · subst hm
    rw [Function.update_self]
    exact Atomic.State.set_pending_self _ _
  · rw [Function.update_of_ne hm]
    exact Atomic.State.set_pending_of_ne (fun h => hm (Prod.mk.inj h).2) _

/-- What happens at one desk leaves the others as they are. -/
theorem Storage.Matches.of_desk (h : st.Matches a) (hcontents : a'.contents = st'.contents)
    (hothers : ∀ j, j ≠ i → st'.desk j = st.desk j ∧ st'.met j = st.met j
      ∧ ∀ n, a'.pending (j, n) = a.pending (j, n))
    (hself : (st'.desk i).Matches (st'.met i) (fun n => a'.pending (i, n))) : st'.Matches a' := by
  refine ⟨hcontents, fun j => ?_⟩
  by_cases hj : j = i
  · exact hj ▸ hself
  · obtain ⟨hdesk, hmet, hpending⟩ := hothers j hj
    rw [hdesk, hmet, funext hpending]
    exact h.desk j

/-- A call that the object does not see. -/
theorem Storage.Matches.call_of_desk (h : st.Matches a) {c : Call} {r : Answer c}
    (hreset : st.reset i c = st)
    (hself : ((st.desk i).next C c r).Matches (st.met i) (fun n => a.pending (i, n))) :
    (st.next (.call i c) r).Matches a := by
  refine h.of_desk (i := i) ?_ (fun j hj => ⟨Function.update_of_ne hj _ _, ?_, fun _ => rfl⟩) ?_
  · show a.contents = (st.reset i c).contents
    rw [hreset]
    exact h.contents_eq
  · show (st.reset i c).met j = _
    rw [hreset]
  · show (Function.update st.desk i _ i).Matches ((st.reset i c).met i) _
    rw [Function.update_self, hreset]
    exact hself

/-- A call that gives a ticket, or takes it back. -/
theorem Storage.Matches.call_of_set (h : st.Matches a) {c : Call} {r : Answer c}
    (hreset : st.reset i c = st) {n : ℕ} {p : Option (Atomic.Pending (atomicStore P C))}
    (hself : ((st.desk i).next C c r).Matches (st.met i)
      (Function.update (fun m => a.pending (i, m)) n p)) :
    (st.next (.call i c) r).Matches (a.set (i, n) p) := by
  refine h.of_desk (i := i) ?_ (fun j hj => ⟨Function.update_of_ne hj _ _, ?_, fun m => ?_⟩) ?_
  · show a.contents = (st.reset i c).contents
    rw [hreset]
    exact h.contents_eq
  · show (st.reset i c).met j = _
    rw [hreset]
  · exact Atomic.State.set_pending_of_ne (fun heq => hj (Prod.mk.inj heq).1) _
  · show (Function.update st.desk i _ i).Matches ((st.reset i c).met i) _
    rw [Function.update_self, hreset, pending_set]
    exact hself

/-- One move, with what is seen of it. -/
def Storage.Follows (a : Atomic.State (atomicStore P C) (ι × ℕ)) (seen : Option (Seen ι))
    (st' : Storage ι C) : Prop :=
  ∃ labels a', Atomic.Run a labels a' ∧ st'.Matches a' ∧ labels.filterMap seenOf = seen.toList

/-- The object stays as it is. -/
theorem Storage.follows_of_matches (h : st'.Matches a) : Storage.Follows a none st' :=
  ⟨[], a, .nil a, h, rfl⟩

theorem Storage.follows_of_step {l : Atomic.Label FrameMessagesTuple (Bytes × Bytes) (ι × ℕ)}
    (hstep : Atomic.Step a l a') (h : st'.Matches a') : Storage.Follows a (seenOf l) st' := by
  refine ⟨[l], a', .cons hstep (.nil a'), h, ?_⟩
  cases hl : seenOf l with
  | none => exact List.filterMap_cons_none hl
  | some seen => exact List.filterMap_cons_some hl

/-- What is at one place of two lists that belong together. -/
theorem exists_getElem?_of_forall₂ {α β : Type} {R : α → β → Prop} {l : List α} {l' : List β}
    (h : List.Forall₂ R l l') {k : ℕ} {x : α} (hx : l[k]? = some x) :
    ∃ y, l'[k]? = some y ∧ R x y := by
  induction h generalizing k with
  | nil => exact nomatch hx
  | cons hxy _ ih =>
    cases k with
    | zero =>
      obtain rfl := Option.some.inj hx
      exact ⟨_, rfl, hxy⟩
    | succ k => exact ih hx

theorem map_eq_map_of_forall₂ {α β γ : Type} {R : α → β → Prop} {f : α → γ} {g : β → γ}
    {l : List α} {l' : List β} (h : List.Forall₂ R l l') (hfg : ∀ x y, R x y → g y = f x) :
    l'.map g = l.map f := by
  induction h with
  | nil => rfl
  | cons hxy _ ih => rw [List.map_cons, List.map_cons, hfg _ _ hxy, ih]

/-- **The row of a read by a key** is the one that its operation has met. -/
theorem readsByKey_of_reports {w : Prepared} (hw : w.Faithful C) {met : List (Option C.Contents)}
    {reads : List (Nat × Snapshot)} (hreads : ∀ read ∈ reads, w.Shows met read.1 read.2) {k : ℕ}
    {message : Message} {o : OperationState} {d : C.Contents} {r : OperationResult}
    (ho : w.state.operations[k]? = some o) (hrealizes : Realizes C message o)
    (hmet : met[k]? = some (some d)) (hr : Reports reads o r) : ReadsByKey d message r := by
  obtain ⟨htype, htells⟩ := hrealizes
  have htold : w.told[k]? = some (o.operation.pointer, Told.of o) := by
    rw [hw.told_eq, List.getElem?_map, ho]
    rfl
  generalize hof : Told.of o = told at htells htold
  cases htells with
  | set => exact trivial
  | delete => exact trivial
  | @get operation storeInfo table _ hstore hname htable haccess hconditions hrecords =>
    subst hof
    intro storeInfo' table' hstore' htable' hpath
    obtain rfl : storeInfo = storeInfo' := Option.some.inj (hstore.symm.trans hstore')
    obtain rfl : table = table' := Option.some.inj (htable.symm.trans htable')
    have hkey : o.operation.access.isScan = false := by
      rw [show o.operation.access = operation.path table from Option.some.inj haccess, hpath]
      rfl
    obtain ⟨snapshot, shown, hmem, hrow, hshows⟩ := hr.2 htype hkey
    unfold ReadsRows
    rw [if_pos hpath]
    refine fun row hselect => ⟨shown, hrow, shown_of_holds hrecords ?_ hshows⟩
    refine hreads _ hmem k _ d htold hmet table (hname ▸ htable) row ?_
    rw [hname, hconditions]
    exact hselect

/-- The answer to a committed transaction. -/
theorem isAnswer_of_reports {w : Prepared} (hw : w.Faithful C) {met : List (Option C.Contents)}
    {ds : List C.Contents} (hds : met = ds.map some) {reads : List (Nat × Snapshot)}
    (hreads : ∀ read ∈ reads, w.Shows met read.1 read.2) {result : Result}
    (hid : result.transactionIdentifier = w.state.transactionID)
    (hok : result.errorCode = none)
    (hreports : List.Forall₂ (Reports reads) w.state.operations result.result) :
    IsAnswer P w.messagesTuple ds (w.state.identifier, replyBytes P result) := by
  refine ⟨hw.state_of.identifier_eq, result, rfl, hid.trans hw.state_of.transactionID_eq, hok,
    ?_, fun k message d r hmessage hd hr => ?_⟩
  · rw [map_eq_map_of_forall₂ hreports (fun _ _ h => h.1)]
    exact map_eq_map_of_forall₂ hw.realizes (fun _ _ h => h.1)
  · obtain ⟨o, ho, hrealizes⟩ := exists_getElem?_of_forall₂ hw.realizes hmessage
    obtain ⟨r', hr', hreport⟩ := exists_getElem?_of_forall₂ hreports ho
    obtain rfl : r = r' := Option.some.inj (hr.symm.trans hr')
    refine readsByKey_of_reports hw hreads ho hrealizes ?_ hreport
    rw [hds, List.getElem?_map, hd]
    rfl

/-- **A reply** is a response of the object. -/
theorem Storage.Matches.reply (h : st.Matches a) {identifier : Bytes} {result : Result}
    (hreply : (st.desk i).MayReply identifier result) :
    Storage.Follows a (some (i, .inr (identifier, replyBytes P result)))
      (st.next (.call i (.send identifier (replyBytes P result))) ()) := by
  have hi := h.desk i
  cases hreply with
  | @broken t result hcalled htaken hid herror =>
    refine Storage.follows_of_step (.refuse (τ := (i, (st.desk i).count)) (hi.taken t htaken)
      (fun m hm => List.eq_of_mem_replicate hm) ⟨rfl, result, rfl, hid, herror⟩) ?_
    refine h.call_of_set rfl (hi.reply ?_ _ _)
    exact List.mem_append_right _
      (List.mem_map.mpr ⟨t, Option.mem_toList.mpr htaken, rfl⟩)
  | @failed c result hcalled hcode hid herror =>
    obtain ⟨⟨hfaithful, p, hp, hrequest, hmet⟩, hall, -⟩ := hi.called c hcalled
    rw [hcode] at hall
    have hof := hfaithful.state_of
    refine Storage.follows_of_step (.refuse (τ := (i, c.prepared.number)) hp
      (fun m hm => hall m (hmet ▸ hm)) ?_) (h.call_of_set rfl (hi.reply ?_ _ _))
    · rw [hrequest]
      exact ⟨hof.identifier_eq, result, rfl, hid.trans hof.transactionID_eq, herror⟩
    · exact List.mem_append_left _ (List.mem_map_of_mem (Option.mem_toList.mpr hcalled))
  | @committed c result hcalled hcode hid hok hreports =>
    obtain ⟨⟨hfaithful, p, hp, hrequest, hmet⟩, hall, hreads⟩ := hi.called c hcalled
    rw [hcode] at hall
    -- all operations have taken effect
    obtain ⟨ds, hds⟩ : st.met i c.prepared.number ∈ Set.range (List.map some) := by
      rw [Set.range_list_map]
      intro m hm
      cases m with
      | none => exact absurd hm hall
      | some d => exact ⟨d, rfl⟩
    refine Storage.follows_of_step
      (.answer (τ := (i, c.prepared.number)) hp (hmet.trans hds.symm) ?_)
      (h.call_of_set rfl (hi.reply ?_ _ _))
    · rw [hrequest]
      exact isAnswer_of_reports hfaithful hds.symm hreads hid hok hreports
    · exact List.mem_append_left _ (List.mem_map_of_mem (Option.mem_toList.mpr hcalled))

/-- **An effect** is one of the object. -/
theorem Storage.Matches.perform (h : st.Matches a) {e : Storage.Effect ι}
    (hadmits : st.admits (.own e) ()) : Storage.Follows a none (st.perform e) := by
  obtain ⟨o, ho, hnone, hwrite⟩ := hadmits
  obtain ⟨d, hd⟩ := Option.isSome_iff_exists.mp hwrite
  obtain ⟨w, hfind, hw⟩ := Option.bind_eq_some_iff.mp ho
  obtain ⟨⟨pointer, told⟩, htold, rfl⟩ := Option.map_eq_some_iff.mp hw
  have hmem := List.mem_of_find?_eq_some hfind
  have hnumber : w.number = e.number := by simpa using List.find?_some hfind
  have hi := h.desk e.executor
  obtain ⟨hfaithful, p, hp, hrequest, hmet⟩ := hi.waiting w hmem
  rw [hnumber] at hp hmet
  -- the message that the operation is for
  obtain ⟨message, hmessage, hwriteEq⟩ : ∃ message, p.request.messages[e.operation]? = some message
      ∧ told.write = message.write := by
    rw [hfaithful.told_eq, List.getElem?_map] at htold
    obtain ⟨operation, hoperation, heq⟩ := Option.map_eq_some_iff.mp htold
    obtain ⟨message, hmessage, -, htells⟩ :=
      exists_getElem?_of_forall₂ hfaithful.realizes.flip hoperation
    rw [hrequest]
    exact ⟨message, hmessage, (Prod.mk.inj heq).2 ▸ htells.write_eq⟩
  have hstep : Atomic.Step a (.effect (e.executor, e.number) e.operation)
      ({ a with contents := d }.set (e.executor, e.number)
        (some (p.meet e.operation a.contents))) := by
    refine .effect hp hmessage (hmet ▸ hnone) ?_
    show Catalog.write message.write a.contents = some d
    rw [← hwriteEq, h.contents_eq]
    exact hd
  have hperform : st.perform e = { st.setMet e.executor e.number
      ((st.met e.executor e.number).set e.operation (some st.contents)) with contents := d } := by
    unfold Storage.perform
    rw [ho]
    dsimp only
    rw [hd]
    rfl
  rw [hperform]
  refine Storage.follows_of_step hstep (h.of_desk (i := e.executor) rfl
    (fun j hj => ⟨rfl, Function.update_of_ne hj _ _, fun n => ?_⟩) ?_)
  · exact Atomic.State.set_pending_of_ne (fun heq => hj (Prod.mk.inj heq).1) _
  · show (st.desk e.executor).Matches (Function.update st.met e.executor _ e.executor)
      (fun n => (Atomic.State.set _ _ _).pending (e.executor, n))
    rw [Function.update_self, pending_set, h.contents_eq]
    have heffect := hi.effect hmem (hnumber.symm ▸ hp) e.operation st.contents
    rwa [hnumber] at heffect

/-- **Whatever happens** among the executors and NDB, the object can do what
is seen of it. -/
theorem Storage.Matches.next (h : st.Matches a) {m : Move ι Call (Storage.Effect ι)}
    {r : m.Reply Answer} (hallows : (sharedContract P C ι).allows st m)
    (hadmits : st.admits m r) : Storage.Follows a (seenBy ⟨m, r⟩) (st.next m r) := by
  cases m with
  | own e => exact h.perform hadmits
  | call i c =>
    have hi := h.desk i
    -- the calls that leave the books as they are
    have hidle : (st.desk i).book c r = st.desk i → st.reset i c = st →
        Storage.Follows a none (st.next (.call i c) r) := by
      intro hbook hreset
      refine Storage.follows_of_matches (h.call_of_desk hreset (hi.of_eq ?_ ?_ ?_ ?_))
      all_goals
        unfold Desk.next
        rw [hbook]
    cases c with
    | take t =>
      obtain ⟨htaken, hcalled⟩ := hallows
      exact Storage.follows_of_step (.invoke t (hi.fresh _ (Nat.lt_succ_self _)))
        (h.call_of_set rfl (hi.take htaken hcalled t))
    | executeAsynchPrepare state =>
      obtain ⟨hcalled, t, htaken, hfaithful⟩ := hallows
      refine Storage.follows_of_matches (h.of_desk (i := i) h.contents_eq
        (fun j hj => ⟨Function.update_of_ne hj _ _, Function.update_of_ne hj _ _, fun _ => rfl⟩) ?_)
      show Desk.Matches (Function.update st.desk i _ i) (Function.update st.met i _ i) _
      rw [Function.update_self, Function.update_self]
      exact hi.prepare htaken hcalled hfaithful
    | callback state =>
      obtain ⟨htaken, hcalled, hfound⟩ := hallows
      obtain ⟨w, hfind⟩ := Option.isSome_iff_exists.mp hfound
      exact Storage.follows_of_matches (h.call_of_desk rfl
        (hi.callback htaken hcalled hfind (hadmits.2 w hfind)))
    | records pointer =>
      exact Storage.follows_of_matches (h.call_of_desk rfl (hi.records hadmits.2))
    | send identifier bytes =>
      obtain ⟨result, rfl, hreply⟩ := hallows
      exact h.reply hreply
    | _ => exact hidle rfl rfl

theorem Storage.Matches.after (h : st.Matches a) {trace : SharedTrace ι}
    (hallowed : (sharedContract P C ι).Allowed st trace)
    (hadmitted : (sharedContract P C ι).Admitted st trace) :
    ∃ labels a', Atomic.Run a labels a' ∧ ((sharedContract P C ι).after st trace).Matches a'
      ∧ labels.filterMap seenOf = trace.filterMap seenBy := by
  induction trace generalizing st a with
  | nil => exact ⟨[], a, .nil a, h, rfl⟩
  | cons e trace ih =>
    obtain ⟨front, middle, hfront, hmiddle, hseen⟩ := h.next hallowed.1 hadmitted.1
    obtain ⟨rest, a', hrest, hmatches, hseen'⟩ := ih hmiddle hallowed.2 hadmitted.2
    refine ⟨front ++ rest, a', Atomic.run_append_iff.mpr ⟨middle, hfront, hrest⟩, hmatches, ?_⟩
    rw [List.filterMap_append, hseen, hseen']
    cases he : seenBy e with
    | none =>
      rw [List.filterMap_cons_none he]
      rfl
    | some seen =>
      rw [List.filterMap_cons_some he]
      rfl

/-- What the executors have done by a moment, and what they do after it, are
two parts of a run of the object. -/
theorem executors_follow {batches : ι → List (List (List FrameMessagesTuple))}
    (hm : ∀ i, Tellable C (batches i).flatten.flatten) {d : C.Contents}
    {front rest : SharedTrace ι}
    (hruns : ∀ i, ∃ q, (executeBatches P (batches i) []).Leaves (partOf i (front ++ rest)) q)
    (hndb : (sharedContract P C ι).Admitted (.start ι d) (front ++ rest)) :
    ∃ labels middle labels' last,
      Atomic.Run (Atomic.State.idle (atomicStore P C) d : Atomic.State _ (ι × ℕ)) labels middle
      ∧ Atomic.Run middle labels' last
      ∧ last.contents = ((sharedContract P C ι).after (.start ι d) (front ++ rest)).contents
      ∧ labels.filterMap seenOf = front.filterMap seenBy
      ∧ labels'.filterMap seenOf = rest.filterMap seenBy := by
  have hallowed : (sharedContract P C ι).Allowed (.start ι d) (front ++ rest) :=
    (shares_sharedContract P C ι).allowed
      (fun i => keeps_executeBatches (hm i) Desk.idle_empty) hruns hndb
  obtain ⟨hfrontAllowed, hrestAllowed⟩ := Contract.allowed_append.mp hallowed
  obtain ⟨hfrontAdmitted, hrestAdmitted⟩ := Contract.admitted_append.mp hndb
  obtain ⟨labels, middle, hrun, hmatches, hseen⟩ :=
    (Storage.matches_start d).after hfrontAllowed hfrontAdmitted
  obtain ⟨labels', last, hrun', hmatches', hseen'⟩ := hmatches.after hrestAllowed hrestAdmitted
  refine ⟨labels, middle, labels', last, hrun, hrun', ?_, hseen, hseen'⟩
  rw [Contract.after_append]
  exact hmatches'.contents_eq

/-- **The executors of a server are a store with atomic operations.** However
their calls and the effects of their operations are interleaved, the tuples
that they take and the replies that they give are those of a run of the
object, which comes to the same contents. -/
theorem executors_refine_atomicStore {batches : ι → List (List (List FrameMessagesTuple))}
    (hm : ∀ i, Tellable C (batches i).flatten.flatten) {d : C.Contents} {trace : SharedTrace ι}
    (hruns : ∀ i, ∃ rest, (executeBatches P (batches i) []).Leaves (partOf i trace) rest)
    (hndb : (sharedContract P C ι).Admitted (.start ι d) trace) :
    ∃ labels a',
      Atomic.Run (Atomic.State.idle (atomicStore P C) d : Atomic.State _ (ι × ℕ)) labels a'
      ∧ a'.contents = ((sharedContract P C ι).after (.start ι d) trace).contents
      ∧ labels.filterMap seenOf = trace.filterMap seenBy := by
  have hallowed : (sharedContract P C ι).Allowed (.start ι d) trace :=
    (shares_sharedContract P C ι).allowed
      (fun i => keeps_executeBatches (hm i) Desk.idle_empty) hruns hndb
  obtain ⟨labels, a', hrun, hmatches, hseen⟩ := (Storage.matches_start d).after hallowed hndb
  exact ⟨labels, a', hrun, hmatches.contents_eq, hseen⟩

/-! ## Reading what was set -/

/-- The tuple is taken by an executor. -/
def TakenIn (trace : SharedTrace ι) (t : FrameMessagesTuple) : Prop :=
  ∃ i, ⟨.call i (.take t), ()⟩ ∈ trace

/-- The result is replied by an executor. -/
def RepliedIn (P : Protobuf) (trace : SharedTrace ι) (result : Result) : Prop :=
  ∃ i identifier, ⟨.call i (.send identifier (replyBytes P result)), ()⟩ ∈ trace

section Seen

variable {labels : List (Atomic.Label FrameMessagesTuple (Bytes × Bytes) (ι × ℕ))}
  {trace : SharedTrace ι}

omit [DecidableEq ι] in
/-- What is invoked has been taken. -/
theorem takenIn_of_invoke (hseen : labels.filterMap seenOf = trace.filterMap seenBy) {τ : ι × ℕ}
    {t : FrameMessagesTuple} (h : .invoke τ t ∈ labels) : TakenIn trace t := by
  have hmem : (τ.1, .inl t) ∈ labels.filterMap seenOf := List.mem_filterMap.mpr ⟨_, h, rfl⟩
  rw [hseen] at hmem
  obtain ⟨⟨⟨i, c⟩ | e, r⟩, he, heq⟩ := List.mem_filterMap.mp hmem
  · cases c with
    | take t' =>
      obtain ⟨rfl, ht⟩ := Prod.mk.inj (Option.some.inj heq)
      obtain rfl := Sum.inl.inj ht
      exact ⟨_, he⟩
    | send identifier bytes => exact nomatch heq
    | _ => exact nomatch heq
  · exact nomatch heq

omit [DecidableEq ι] in
/-- What has been replied is a response. -/
theorem respond_of_repliedIn (hseen : labels.filterMap seenOf = trace.filterMap seenBy)
    {result : Result} (h : RepliedIn P trace result) :
    ∃ τ identifier, .respond τ (identifier, replyBytes P result) ∈ labels := by
  obtain ⟨i, identifier, hmem⟩ := h
  have hmem : (i, .inr (identifier, replyBytes P result)) ∈ trace.filterMap seenBy :=
    List.mem_filterMap.mpr ⟨_, hmem, rfl⟩
  rw [← hseen] at hmem
  obtain ⟨_ | _ | ⟨τ, reply⟩, hl, heq⟩ := List.mem_filterMap.mp hmem
  · exact nomatch heq
  · exact nomatch heq
  · obtain ⟨-, hreply⟩ := Prod.mk.inj (Option.some.inj heq)
    obtain rfl := Sum.inr.inj hreply
    exact ⟨τ, identifier, hl⟩

end Seen

variable {d : C.Contents} {storeInfo : StoreInfo} {setOperation : SetOperation}

/-- A `SET` of the row brings it about. -/
theorem makes_isSet {t : FrameMessagesTuple}
    (hstore : setOperation.storeInfo.head? = some storeInfo)
    (ht : t.messages = [.set setOperation]) :
    Atomic.Makes (atomicStore P C) (setOperation.IsSet storeInfo) t := by
  refine ⟨by rw [show (atomicStore P C).operations t = _ from ht]; exact List.cons_ne_nil _ _,
    fun message hmessage d d' happly => ?_⟩
  rw [show (atomicStore P C).operations t = _ from ht] at hmessage
  obtain rfl := List.mem_singleton.mp hmessage
  have happly : Catalog.write (Message.set setOperation).write d = some d' := happly
  rw [SetOperation.write_eq hstore] at happly
  exact SetOperation.isSet_of_apply happly

/-- A tuple that spares the row leaves it. -/
theorem preserves_isSet_of_spares {t : FrameMessagesTuple}
    (ht : Spares C (cStr storeInfo.storeName) (setOperation.rowKey C storeInfo) t.messages) :
    Atomic.Preserves (atomicStore P C) (setOperation.IsSet storeInfo) t := by
  rintro message hmessage d d' happly ⟨row, hfind, hrow⟩
  have happly : Catalog.write message.write d = some d' := happly
  refine ⟨row, ?_, hrow⟩
  cases hwrite : message.write with
  | none =>
    rw [hwrite] at happly
    exact Option.some.inj happly ▸ hfind
  | some write =>
    rw [hwrite] at happly
    rw [Keyed.Database.find_apply happly (ht message hmessage write hwrite)]
    exact hfind

/-- **The answer to a `GET` for the row** that has met it as it was set. -/
theorem IsAnswer.hasSet {t : FrameMessagesTuple} {getOperation : GetOperation} {table : Table}
    {ds : List C.Contents} {reply : Bytes × Bytes} {result : Result}
    (h : IsAnswer P t ds reply) (hreply : reply.2 = replyBytes P result)
    (ht : t.messages = [.get getOperation]) (hlength : ds.length = t.messages.length)
    (hasks : AsksFor C storeInfo table setOperation getOperation)
    (hset : ∀ d ∈ ds, setOperation.IsSet storeInfo d) :
    ∃ shown, result.result = [⟨[shown], .get⟩]
      ∧ HasSet table (columnPairs setOperation.value) shown := by
  obtain ⟨-, result', hreply', -, -, htypes, hreads⟩ := h
  obtain rfl := replyBytes_injective P (hreply.symm.trans hreply')
  rw [ht] at htypes hreads hlength
  obtain ⟨d, rfl⟩ := List.length_eq_one_iff.mp hlength
  obtain ⟨r, hr⟩ : ∃ r, result.result = [r] := by
    have hlen := congrArg List.length htypes
    rw [List.length_map, List.length_map] at hlen
    exact List.length_eq_one_iff.mp hlen
  rw [hr] at htypes hreads
  obtain ⟨row, hfind, hrow⟩ := hset d List.mem_cons_self
  rw [← hasks.key_eq] at hfind
  have hrows := hreads 0 _ d r rfl rfl rfl storeInfo table hasks.get_store hasks.table_eq
    (GetOperation.path_of_isKey hasks.table_eq hasks.isKey).1
  obtain ⟨shown, hrow', hshown⟩ := hrows.of_isKey hasks.table_eq hasks.isKey hfind
  obtain ⟨rows, type⟩ := r
  refine ⟨shown, ?_, hshown.hasSet hrow⟩
  rw [hr, show rows = [shown] from hrow', show type = .get from List.singleton_inj.mp htypes]

/-- **The object reads what was set.** Once it has responded that a `SET` has
succeeded, a `GET` for its row that is invoked afterwards, if it succeeds,
returns what was set, as long as no other request writes this row. -/
theorem atomicStore_reads_what_was_set {Ticket : Type} [DecidableEq Ticket]
    {labels labels' : List (Atomic.Label FrameMessagesTuple (Bytes × Bytes) Ticket)}
    {middle last : Atomic.State (atomicStore P C) Ticket}
    (hrun : Atomic.Run (Atomic.State.idle (atomicStore P C) d) labels middle)
    (hrun' : Atomic.Run middle labels' last)
    {getOperation : GetOperation} {table : Table} {setResult getResult : Result}
    (hasks : AsksFor C storeInfo table setOperation getOperation) {identifier identifier' : Bytes}
    (hset : Atomic.RespondedIn labels (identifier, replyBytes P setResult))
    (hsetOk : setResult.errorCode = none)
    (hget : Atomic.RespondedIn labels' (identifier', replyBytes P getResult))
    (hgetOk : getResult.errorCode = none)
    (hsetter : ∀ t, Atomic.InvokedIn labels t →
      t.transactionID = setResult.transactionIdentifier → t.messages = [.set setOperation])
    (hgetter : ∀ t, Atomic.InvokedIn labels' t →
      t.transactionID = getResult.transactionIdentifier → t.messages = [.get getOperation])
    (hlater : ∀ t, Atomic.InvokedIn labels t → t.transactionID ≠ getResult.transactionIdentifier)
    (hothers : ∀ t, Atomic.InvokedIn (labels ++ labels') t → t.messages = [.set setOperation]
      ∨ Spares C (cStr storeInfo.storeName) (setOperation.rowKey C storeInfo) t.messages) :
    ∃ shown, getResult.result = [⟨[shown], .get⟩]
      ∧ HasSet table (columnPairs setOperation.value) shown := by
  obtain ⟨τ, hrespond⟩ := hset
  obtain ⟨τ', hrespond'⟩ := hget
  have hboth : ∀ q, Atomic.InvokedIn labels q → Atomic.InvokedIn (labels ++ labels') q :=
    fun _ h => h.imp (fun _ => List.mem_append_left _)
  have hidle : ∀ (τ : Ticket) p, (Atomic.State.idle (atomicStore P C) d).pending τ = some p →
      Atomic.InvokedIn labels p.request := fun _ _ hp => nomatch hp
  have hpreserves : ∀ q, Atomic.InvokedIn (labels ++ labels') q →
      Atomic.Preserves (atomicStore P C) (setOperation.IsSet storeInfo) q := fun q hq =>
    (hothers q hq).elim (fun h => (makes_isSet hasks.set_store h).preserves)
      preserves_isSet_of_spares
  -- the row is as it was set when the `SET` has been answered
  have hsetMiddle : setOperation.IsSet storeInfo middle.contents := by
    refine hrun.holds_of_answered (Q := Atomic.InvokedIn labels)
      (fun q hq => hpreserves q (hboth q hq)) (fun τ q hq => ⟨τ, hq⟩) hidle
      (fun _ _ hp => nomatch hp) hrespond ?_ ?_
    · rintro q - ⟨-, result, hreply, -, herror⟩
      exact herror (replyBytes_injective P hreply ▸ hsetOk)
    · rintro q ds hq ⟨-, result, hreply, hid, -⟩
      obtain rfl := replyBytes_injective P hreply
      exact makes_isSet hasks.set_store (hsetter q hq hid.symm)
  -- and so the `GET` meets it
  have hwaiting := hrun.waiting (Q := Atomic.InvokedIn labels) (fun τ q hq => ⟨τ, hq⟩) hidle
  have hmeets : Atomic.MeetsOnly (setOperation.IsSet storeInfo)
      (identifier', replyBytes P getResult) middle := by
    rintro τ p hp ⟨ds, -, result, hreply, hid, -⟩
    obtain rfl := replyBytes_injective P hreply
    exact absurd hid.symm (hlater _ (hwaiting τ p hp))
  obtain ⟨t, ds, ⟨τ₁, hinvoked⟩, hlength, hanswer, hall⟩ :
      ∃ q ds, Atomic.InvokedIn (labels ++ labels') q ∧ _ := by
    refine hrun'.meets_of_holds hpreserves (fun τ q hq => ⟨τ, List.mem_append_right _ hq⟩)
      (fun τ p hp => hboth _ (hwaiting τ p hp)) hsetMiddle hmeets hrespond' ?_
    rintro q - ⟨-, result, hreply, -, herror⟩
    exact herror (replyBytes_injective P hreply ▸ hgetOk)
  refine hanswer.hasSet rfl ?_ hlength hasks hall
  obtain ⟨-, result, hreply, hid, -⟩ := hanswer
  obtain rfl := replyBytes_injective P hreply
  rcases List.mem_append.mp hinvoked with hinvoked | hinvoked
  · exact absurd hid.symm (hlater t ⟨τ₁, hinvoked⟩)
  · exact hgetter t ⟨τ₁, hinvoked⟩ hid.symm

/-- **A row that has been set is read by everyone who asks for it later.**
Once the reply that a `SET` has succeeded is out, a `GET` for its row that any
executor takes afterwards, if it succeeds, returns what was set, as long as
nobody else writes this row. -/
theorem executors_read_what_was_set {batches : ι → List (List (List FrameMessagesTuple))}
    (hm : ∀ i, Tellable C (batches i).flatten.flatten) {front rest : SharedTrace ι}
    (hruns : ∀ i, ∃ q, (executeBatches P (batches i) []).Leaves (partOf i (front ++ rest)) q)
    (hndb : (sharedContract P C ι).Admitted (.start ι d) (front ++ rest))
    {getOperation : GetOperation} {table : Table} {setResult getResult : Result}
    (hasks : AsksFor C storeInfo table setOperation getOperation)
    (hset : RepliedIn P front setResult) (hsetOk : setResult.errorCode = none)
    (hget : RepliedIn P rest getResult) (hgetOk : getResult.errorCode = none)
    (hsetter : ∀ t, TakenIn (front ++ rest) t →
      t.transactionID = setResult.transactionIdentifier → t.messages = [.set setOperation])
    (hgetter : ∀ t, TakenIn rest t →
      t.transactionID = getResult.transactionIdentifier → t.messages = [.get getOperation])
    (hlater : ∀ t, TakenIn front t → t.transactionID ≠ getResult.transactionIdentifier)
    (hothers : ∀ t, TakenIn (front ++ rest) t → t.messages = [.set setOperation]
      ∨ Spares C (cStr storeInfo.storeName) (setOperation.rowKey C storeInfo) t.messages) :
    ∃ shown, getResult.result = [⟨[shown], .get⟩]
      ∧ HasSet table (columnPairs setOperation.value) shown := by
  obtain ⟨labels, middle, labels', last, hrun, hrun', -, hseen, hseen'⟩ :=
    executors_follow hm hruns hndb
  obtain ⟨τ, identifier, hrespond⟩ := respond_of_repliedIn hseen hset
  obtain ⟨τ', identifier', hrespond'⟩ := respond_of_repliedIn hseen' hget
  -- what is invoked has been taken
  have hfront : ∀ t, Atomic.InvokedIn labels t → TakenIn front t :=
    fun _ ⟨_, h⟩ => takenIn_of_invoke hseen h
  have hrest : ∀ t, Atomic.InvokedIn labels' t → TakenIn rest t :=
    fun _ ⟨_, h⟩ => takenIn_of_invoke hseen' h
  have hboth : ∀ t, Atomic.InvokedIn (labels ++ labels') t → TakenIn (front ++ rest) t :=
    fun _ ⟨_, h⟩ => takenIn_of_invoke (by rw [List.filterMap_append, List.filterMap_append, hseen,
      hseen']) h
  have hleft : ∀ t, Atomic.InvokedIn labels t → TakenIn (front ++ rest) t :=
    fun t h => (hfront t h).imp (fun _ => List.mem_append_left _)
  exact atomicStore_reads_what_was_set hrun hrun' hasks ⟨τ, hrespond⟩ hsetOk ⟨τ', hrespond'⟩ hgetOk
    (fun t h => hsetter t (hleft t h)) (fun t h => hgetter t (hrest t h))
    (fun t h => hlater t (hfront t h)) (fun t h => hothers t (hboth t h))

/-! ## Two executors -/

/-- One executor is given the `SET`, and another the `GET`. -/
def setAndGet : Bool → FrameMessagesTuple
  | false => ⟨ascii "x", ascii "a", [.set setOne]⟩
  | true => ⟨ascii "y", ascii "b", [.get getOne]⟩

/-- The run of each. -/
abbrev servedAt (i : Bool) : Trace × Except Fault (List NdbTransactionState) :=
  (executeBatches wireFormat [[[setAndGet i]]] []).run serving

/-- The run of an executor, whose operation takes effect while it polls. -/
def effectAt (i : Bool) (n : ℕ) : SharedTrace Bool :=
  alone i ((servedAt i).1.take n) ++ ⟨.own ⟨i, 1, 0⟩, ()⟩ :: alone i ((servedAt i).1.drop n)

theorem partOf_effectAt_self (i : Bool) (n : ℕ) :
    partOf i (effectAt i n) = (servedAt i).1 := by
  unfold effectAt
  rw [partOf_append, partOf_own, partOf_alone_self, partOf_alone_self, List.take_append_drop]

theorem partOf_effectAt_of_ne {i j : Bool} (h : j ≠ i) (n : ℕ) :
    partOf i (effectAt j n) = [] := by
  unfold effectAt
  rw [partOf_append, partOf_own, partOf_alone_of_ne h, partOf_alone_of_ne h, List.append_nil]

/-- Each executor has its run. -/
theorem leaves_setAndGet (i : Bool) :
    ∃ q, (executeBatches wireFormat [[[setAndGet i]]] []).Leaves
      (partOf i (effectAt false 9 ++ effectAt true 11)) q := by
  have hpart : partOf i (effectAt false 9 ++ effectAt true 11) = (servedAt i).1 := by
    rw [partOf_append]
    cases i with
    | false =>
      rw [partOf_effectAt_self, partOf_effectAt_of_ne (Ne.symm Bool.false_ne_true),
        List.append_nil]
    | true =>
      rw [partOf_effectAt_self, partOf_effectAt_of_ne Bool.false_ne_true, List.nil_append]
  rw [hpart]
  exact (Prog.runs_run serving _).leaves

theorem tellable_setAndGet (i : Bool) :
    Tellable oneCatalog [[[setAndGet i]]].flatten.flatten := by
  refine List.forall_mem_singleton.mpr ?_
  cases i with
  | false =>
    exact ⟨List.cons_ne_nil _ _, List.forall_mem_singleton.mpr (List.cons_ne_nil _ _)⟩
  | true =>
    exact ⟨List.cons_ne_nil _ _, List.forall_mem_singleton.mpr
      ⟨⟨ascii "t"⟩, rfl, fun _ _ _ => List.forall_mem_nil _⟩⟩

theorem admitted_setAndGet : (sharedContract wireFormat oneCatalog Bool).Admitted
    (.start Bool (fun _ => .empty)) (effectAt false 9 ++ effectAt true 11) := by
  have hmake : ∀ (s : NdbState oneCatalog) (p : Nat), p ∉ s.members 0 →
      s.MayMake 0 (ascii "t") (some p) :=
    fun s p hnew p' hp => ⟨rfl, Option.some.inj hp ▸ hnew⟩
  have hrecord : (1 : Nat) ∉ [0] := by decide
  obtain ⟨d, hput, hrow⟩ := exists_apply_setOne
  have hidle : True ∧ True := ⟨trivial, trivial⟩
  refine ⟨hidle, ⟨rfl, trivial⟩, hidle, ⟨hmake _ 1 List.not_mem_nil, trivial⟩, hidle, hidle, hidle,
    hidle, hidle, ⟨_, rfl, rfl, ?_⟩, ⟨trivial, ?_⟩, hidle, hidle,
    hidle, ⟨rfl, trivial⟩, hidle, ⟨rfl, trivial⟩, ⟨hmake _ 1 List.not_mem_nil, trivial⟩, hidle,
    hidle, ⟨List.not_mem_nil, trivial⟩, ⟨hrecord, trivial⟩, hidle, hidle, ⟨_, rfl, rfl, rfl⟩,
    ⟨trivial, ?_⟩, ⟨?_, ?_⟩,
    hidle, hidle, trivial⟩
  · exact Option.isSome_of_eq_some hput
  · intro w hw
    obtain rfl := Option.some.inj hw
    exact fun hmem => nomatch List.mem_singleton.mp hmem
  · intro w hw
    obtain rfl := Option.some.inj hw
    exact fun hmem => nomatch List.mem_singleton.mp hmem
  · exact fun hmem => absurd hmem List.not_mem_nil
  · intro c hc k o d' htold hmet table htable row hselect
    -- the one operation of the transaction, which has met the contents after the `SET`
    obtain ⟨htoldEq, hnumber⟩ : c.prepared.told = [(1, toldOne)] ∧ c.prepared.number = 1 :=
      Option.some.inj hc ▸ ⟨rfl, rfl⟩
    rw [htoldEq] at htold
    rw [hnumber] at hmet
    have hmet : [some ((Catalog.write (some writtenOne)
        (NdbState.empty oneCatalog).contents).getD (NdbState.empty oneCatalog).contents)][k]?
        = some (some d') := hmet
    rw [Catalog.write, hput] at hmet
    cases k with
    | zero =>
      obtain rfl := (Prod.mk.inj (Option.some.inj htold)).2
      obtain rfl : d = d' := Option.some.inj (Option.some.inj hmet)
      obtain rfl : oneRow.table = table := Option.some.inj htable
      obtain ⟨hk, hv⟩ := hrow row hselect
      exact holds_serving hk hv
    | succ k => exact nomatch htold

/-- The two executors, as a store. -/
theorem executors_refine_atomicStore_setAndGet :
    ∃ labels a', Atomic.Run (Atomic.State.idle (atomicStore wireFormat oneCatalog)
        (fun _ => .empty) : Atomic.State _ (Bool × ℕ)) labels a'
      ∧ a'.contents = ((sharedContract wireFormat oneCatalog Bool).after
          (.start Bool (fun _ => .empty)) (effectAt false 9 ++ effectAt true 11)).contents
      ∧ labels.filterMap seenOf = (effectAt false 9 ++ effectAt true 11).filterMap seenBy :=
  executors_refine_atomicStore tellable_setAndGet leaves_setAndGet admitted_setAndGet

/-- The tuple that is taken, where one is. -/
def takenOf : Event Answer → Option FrameMessagesTuple
  | ⟨.take t, _⟩ => some t
  | _ => none

/-- Each executor takes the tuple that it is given. -/
theorem eq_of_takenIn_effectAt {i : Bool} {n : ℕ} {t : FrameMessagesTuple}
    (h : TakenIn (effectAt i n) t) : t = setAndGet i := by
  obtain ⟨j, hj⟩ := h
  have hmem : ⟨.take t, ()⟩ ∈ partOf j (effectAt i n) := List.mem_filterMap.mpr ⟨_, hj, if_pos rfl⟩
  have htaken : ∀ i, (servedAt i).1.filterMap takenOf = [setAndGet i] := by
    intro i
    cases i <;> rfl
  by_cases hi : i = j
  · subst hi
    rw [partOf_effectAt_self] at hmem
    refine List.mem_singleton.mp ?_
    rw [← htaken i]
    exact List.mem_filterMap.mpr ⟨_, hmem, rfl⟩
  · rw [partOf_effectAt_of_ne hi] at hmem
    exact absurd hmem List.not_mem_nil

/-- The one executor has set the row, and the other reads it. -/
theorem executors_read_what_was_set_one :
    RepliedIn wireFormat (effectAt true 11) rowOne
      ∧ ∃ shown, rowOne.result = [⟨[shown], .get⟩]
        ∧ HasSet oneRow.table (columnPairs setOne.value) shown := by
  have hget : RepliedIn wireFormat (effectAt true 11) rowOne :=
    ⟨true, ascii "b", List.mem_of_getElem? (i := 15) rfl⟩
  have hset : RepliedIn wireFormat (effectAt false 9)
      { makeResult (ascii "x") with result := [⟨[], .set⟩] } :=
    ⟨false, ascii "a", List.mem_of_getElem? (i := 12) rfl⟩
  have hasks : AsksFor oneCatalog ⟨ascii "t"⟩ oneRow.table setOne getOne :=
    ⟨rfl, rfl, rfl, by decide, rfl⟩
  have htaken : ∀ t, TakenIn (effectAt false 9 ++ effectAt true 11) t → ∃ i, t = setAndGet i := by
    rintro t ⟨i, hi⟩
    rcases List.mem_append.mp hi with hi | hi
    · exact ⟨false, eq_of_takenIn_effectAt ⟨i, hi⟩⟩
    · exact ⟨true, eq_of_takenIn_effectAt ⟨i, hi⟩⟩
  refine ⟨hget, executors_read_what_was_set tellable_setAndGet leaves_setAndGet admitted_setAndGet
    hasks hset rfl hget rfl (fun t ht hid => ?_) (fun t ht _ => ?_) (fun t ht => ?_)
    (fun t ht => ?_)⟩
  · obtain ⟨i, rfl⟩ := htaken t ht
    cases i with
    | false => rfl
    | true => exact absurd hid (by decide)
  · rw [eq_of_takenIn_effectAt ht]
    rfl
  · rw [eq_of_takenIn_effectAt ht]
    decide
  · obtain ⟨i, rfl⟩ := htaken t ht
    cases i with
    | false => exact Or.inl rfl
    | true => exact Or.inr (List.forall_mem_singleton.mpr (fun _ hwrite => nomatch hwrite))

end VoloDB
