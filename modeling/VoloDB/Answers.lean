import VoloDB.Atomicity

/-!
# Every transaction is answered

A client waits for one result for each transaction it sends. `AnswersAll`
says that it gets it: every transaction of a frame is served without
leaving the defined behaviour, and exactly one result is sent for it, under
the identifier the client gave. `ChecksStores` says that the executor never
reads the store of an operation that names none, and tells the client that
one is missing.

Both fail for the same reason and for another. The executor reads
`store_info(0)`, and the column a condition names, without looking first
whether there is one; what a client puts into an operation so decides
whether the server goes on at all. And the answers are sent from wherever a
transaction ends, which for an atomic frame with a definition operation in
it is more than one place, and for an item that does not decode is none.

What a store holds matters as well. A `GET` reads all columns, and the types
of these are asserted to be some that the protocol has. Which stores are of
such columns alone is a matter of the database, so `AnswersAll` is about the
runs in which a given collection of stores, `typed`, is.
-/

namespace VoloDB

open Interaction FrameUtils NDBMessageExecutor FrameDecoder

variable {P : Protobuf}

/-! ## One transaction -/

variable (P) in
/-- **The run answers the transaction**: it comes to its end, and has sent
one reply, a result with the identifier of the transaction. -/
def Answered (identifier transactionID : Bytes) (trace : Trace) (o : Except Fault Unit) :
    Prop :=
  o = .ok () ∧ ∃ result, replies trace = [(identifier, replyBytes P result)]
    ∧ result.transactionIdentifier = transactionID

/-- The messages before the first that is no operation, which ends the
loop. -/
def reached (messages : List Message) : List Message :=
  messages.takeWhile (fun m => isDefinitionFrame m || m.isManipulation)

/-- **Messages that get exactly one answer**: one definition operation; or
no definition operation, and only manipulation operations that name a store
and compare no column a table might lack, as far as the loop can get. -/
def Answerable (messages : List Message) : Prop :=
  messages ≠ []
    ∧ ((∃ m, messages = [m] ∧ isDefinitionFrame m = true)
      ∨ ∀ m ∈ reached messages,
          isDefinitionFrame m = false ∧ ¬ m.LacksStore ∧ ¬ m.MayLackColumn)

theorem Answerable.not_lacks {messages : List Message} (h : Answerable messages) :
    ∀ m ∈ reached messages, ¬ m.LacksStore ∧ ¬ m.MayLackColumn := by
  intro m hm
  rcases h.2 with ⟨d, rfl, hd⟩ | hall
  · obtain rfl := List.mem_singleton.mp ((List.takeWhile_sublist _).subset hm)
    have hnot := Message.not_isManipulation_of_isDefinitionFrame hd
    refine ⟨fun h => hnot h.1, fun h => ?_⟩
    cases m <;> first | exact hnot rfl | exact h
  · exact (hall m hm).2

theorem reached_cons {message : Message} {messages : List Message}
    (h : isDefinitionFrame message = true ∨ message.isManipulation = true) :
    reached (message :: messages) = message :: reached messages :=
  List.takeWhile_cons_of_pos (by rwa [Bool.or_eq_true])

/-- What reads for a message is of a store that the message reads. -/
theorem NDBMessageExecutor.Adds.storeName_of_get {typed : Bytes → Prop} {message : Message}
    {operation : OperationState} (h : Adds message operation) (hget : operation.type = .get)
    (hs : message.storeInfos ≠ []) (hreads : ∀ storeName ∈ message.readStore, typed storeName) :
    typed operation.operation.storeName := by
  have htype := h.type_eq.symm.trans hget
  cases message with
  | get getOperation =>
    obtain ⟨store, rest, hstore⟩ := List.exists_cons_of_ne_nil hs
    have hname : cStr store.storeName ∈ Message.readStore (.get getOperation) := by
      rw [Message.readStore, show getOperation.storeInfo = store :: rest from hstore]
      rfl
    rw [(h.reads _ hname).1]
    exact hreads _ hname
  | _ => exact absurd htype (by simp [getFrameType])

/-- **What is committed reads these stores alone**: if the loop gets to the end
of the messages, every `GET` among them is of one of the stores. -/
def ReadsOnly (typed : Bytes → Prop) (messages : List Message) : Prop :=
  reached messages = messages → ∀ m ∈ messages, ∀ storeName ∈ m.readStore, typed storeName

/-- **What is to come for such messages**: one answer, where the stores they
read show no type the protocol does not have. -/
theorem serveFrom_ensures_answered {typed : Bytes → Prop} (messagesTuple : FrameMessagesTuple)
    (messages : List Message) (s : LoopState)
    (hs : messages ≠ [] ∨ s.transaction.isSome = true)
    (h : ∀ m ∈ reached messages,
      isDefinitionFrame m = false ∧ ¬ m.LacksStore ∧ ¬ m.MayLackColumn)
    (hreads : reached messages = messages →
      (∀ o ∈ s.transactionOperations, o.type = .get → typed o.operation.storeName)
        ∧ ∀ m ∈ messages, ∀ storeName ∈ m.readStore, typed storeName) :
    (serveFrom P messagesTuple messages s).Ensures (fun trace o =>
      ¬ MeetsUnknown typed trace →
        Answered P messagesTuple.identifier messagesTuple.transactionID trace o) := by
  induction messages generalizing s with
  | nil =>
    refine (finish_completes P messagesTuple (hs.resolve_left (fun h => h rfl))).mono ?_
    rintro trace o ⟨transaction, ⟨ho, -, result, hc⟩ | ⟨-, ha⟩⟩ hknown
    · exact ⟨ho, result, hc.replies_eq, hc.id_eq⟩
    · exact absurd (ha.meetsUnknown typed (hreads rfl).1) hknown
  | cons message messages ih =>
    refine ensures_serveFrom_cons P ?_ ?_ ?_
    · intro front next hturn
      cases hturn with
      | answered result hd =>
        rw [reached_cons (Or.inl hd), List.forall_mem_cons] at h
        exact absurd (hd.symm.trans h.1.1) (by decide)
      | added transaction operation hm hstores hadds hprep =>
        rw [reached_cons (Or.inr hm), List.forall_mem_cons] at h
        refine (ih ⟨some transaction, _⟩ (Or.inr rfl) h.2 (fun hrest => ?_)).mono ?_
        · obtain ⟨hops, hmessages⟩ := hreads (by rw [reached_cons (Or.inr hm), hrest])
          rw [List.forall_mem_cons] at hmessages
          refine ⟨fun o ho hget => ?_, hmessages.2⟩
          rcases List.mem_append.mp ho with ho | ho
          · exact hops o ho hget
          · rw [List.mem_singleton.mp ho] at hget ⊢
            exact hadds.storeName_of_get hget hstores hmessages.1
        · intro rest o hrest hknown
          obtain ⟨ho, result, hreplies, hid⟩ := hrest (fun h => hknown (h.append_left front))
          refine ⟨ho, result, ?_, hid⟩
          rw [replies_append, replies_of_isPreparation hprep, hreplies, List.nil_append]
    · rintro trace (_ | _ | ⟨result, _, hreplies, hid, _, _⟩) -
      exact ⟨rfl, result, hreplies, hid⟩
    · rintro trace f (_ | _ | _ | ⟨_, hm, hfault, _⟩)
      rw [reached_cons (Or.inr hm), List.forall_mem_cons] at h
      rcases hfault with ⟨-, hl⟩ | ⟨-, hl⟩
      · exact absurd hl h.1.2.1
      · exact absurd hl h.1.2.2

/-- Whatever is still to come, if anything is, leads to an answer or to a
fault. -/
theorem serveFrom_ensures_reply (messagesTuple : FrameMessagesTuple)
    (messages : List Message) (s : LoopState)
    (hs : messages ≠ [] ∨ s.transaction.isSome = true) :
    (serveFrom P messagesTuple messages s).Ensures (fun trace o =>
      o = .ok () → replies trace ≠ []) := by
  induction messages generalizing s with
  | nil =>
    refine (finish_completes P messagesTuple (hs.resolve_left (fun h => h rfl))).mono ?_
    rintro trace o ⟨transaction, ⟨-, -, result, hc⟩ | ⟨rfl, -⟩⟩ ho
    · rw [hc.replies_eq]
      exact List.cons_ne_nil _ _
    · exact absurd ho (by simp)
  | cons message messages ih =>
    refine ensures_serveFrom_cons P ?_ ?_ ?_
    · intro front next hturn
      cases hturn with
      | answered result hd hreplies =>
        refine fun rest o _ _ => ?_
        rw [replies_append, hreplies]
        exact List.cons_ne_nil _ _
      | added transaction operation =>
        refine (ih ⟨some transaction, _⟩ (Or.inr rfl)).mono (fun rest o h ho => ?_)
        rw [replies_append]
        exact fun hnil => h ho (List.append_eq_nil_iff.mp hnil).2
    · rintro trace (_ | _ | ⟨result, _, hreplies, _, _, _⟩) -
      rw [hreplies]
      exact List.cons_ne_nil _ _
    · exact fun trace f _ ho => absurd ho (by simp)

/-- Turns of manipulation operations send nothing. -/
theorem NDBMessageExecutor.Turns.replies_eq_nil {messagesTuple : FrameMessagesTuple}
    {messages : List Message} {s last : LoopState} {trace : Trace}
    (h : Turns P messagesTuple messages s trace last)
    (hm : ∀ m ∈ messages, isDefinitionFrame m = false) : replies trace = [] := by
  induction h with
  | nil s => rfl
  | cons hturn _ _ ih =>
    rw [List.forall_mem_cons] at hm
    rw [replies_append, ih hm.2, List.append_nil]
    cases hturn with
    | answered result hd => exact absurd (hd.symm.trans hm.1) (by decide)
    | added _ _ _ _ _ hprep => exact replies_of_isPreparation hprep

/-- In a list that is not answerable, there is a first operation that is to
blame; the ones before it are manipulation operations that name a store. -/
theorem exists_first_of_not_answerable {messages : List Message} (hnil : messages ≠ [])
    (h : ¬ Answerable messages) :
    ∃ front message rest, messages = front ++ message :: rest
      ∧ (∀ m ∈ front, isDefinitionFrame m = false ∧ m.isManipulation = true
        ∧ m.canPass = true)
      ∧ (isDefinitionFrame message = true ∨ message.LacksStore ∨ message.MayLackColumn) := by
  have hbad : ∃ m ∈ reached messages, decide (isDefinitionFrame m = true ∨ m.LacksStore
      ∨ m.MayLackColumn) = true := by
    by_contra hgood
    refine h ⟨hnil, Or.inr (fun m hm => ?_)⟩
    have hm' : ¬ (isDefinitionFrame m = true ∨ m.LacksStore ∨ m.MayLackColumn) :=
      fun hm' => hgood ⟨m, hm, decide_eq_true hm'⟩
    rw [not_or, not_or] at hm'
    exact ⟨by simpa using hm'.1, hm'.2⟩
  obtain ⟨front, message, rest, hms, hfront, -, hmessage⟩ :=
    exists_first_of_mem_takeWhile hbad
  refine ⟨front, message, rest, hms, fun m hm => ?_, of_decide_eq_true hmessage⟩
  obtain ⟨hkind, hok⟩ := hfront m hm
  rw [decide_eq_false_iff_not, not_or, not_or] at hok
  have hdef : isDefinitionFrame m = false := by simpa using hok.1
  rw [hdef, Bool.false_or] at hkind
  exact ⟨hdef, hkind,
    Message.canPass_of_isManipulation hkind (fun hs => hok.2.1 ⟨hkind, hs⟩)⟩

/-- An operation without a store, or on a column the table may lack, can end
the server there and then. -/
theorem can_fault_of_lacks (messagesTuple : FrameMessagesTuple) (s : LoopState)
    {message : Message} (h : message.LacksStore ∨ message.MayLackColumn) :
    ∃ f, f ≠ .columnType
      ∧ (executeMessage P messagesTuple s message).Can (fun _ o => o = .error f) := by
  rcases h with hlacks | hcolumn
  · exact ⟨.storeInfo, by decide, can_fault_of_lacksStore P messagesTuple s hlacks⟩
  · have hm : message.isManipulation = true := by
      cases message <;> first | rfl | exact hcolumn.elim
    by_cases hs : message.storeInfos = []
    · exact ⟨.storeInfo, by decide, can_fault_of_lacksStore P messagesTuple s ⟨hm, hs⟩⟩
    · exact ⟨.nullColumn, by decide, can_fault_of_mayLackColumn P messagesTuple s hm hs hcolumn⟩

/-- Where everything fails, no type is met that the protocol does not have. -/
theorem not_meetsUnknown_of_failing {stores : Bytes → Prop} {trace : Trace}
    (h : ∀ e ∈ trace, e.2 = failing e.1) : ¬ MeetsUnknown stores trace := by
  refine not_meetsUnknown (fun e he => ?_)
  obtain ⟨c, r⟩ := e
  obtain rfl : r = failing c := h _ he
  cases c <;> rfl

/-- A definition operation is answered at once, and so with anything before
or behind it there is more than one answer. -/
theorem can_not_answered_of_isDefinitionFrame {messagesTuple : FrameMessagesTuple}
    {front rest : List Message} {message : Message} {before : Trace} {s : LoopState}
    (hturns : Turns P messagesTuple front ⟨none, []⟩ before s)
    (hfront : ∀ m ∈ front, isDefinitionFrame m = false ∧ m.isManipulation = true)
    (hdef : isDefinitionFrame message = true) (hmore : front ≠ [] ∨ rest ≠ []) :
    (serveFrom P messagesTuple (message :: rest) s).Can (fun trace o =>
      o ≠ .error .columnType
        ∧ ¬ Answered P messagesTuple.identifier messagesTuple.transactionID
          (before ++ trace) o) := by
  refine can_serveFrom_cons ((can_pass P messagesTuple s message
    (Message.canPass_of_isDefinitionFrame hdef)).mono ?_)
  rintro applied _ ⟨next, rfl, hturn, -⟩
  refine ⟨next, rfl, ?_⟩
  cases hturn with
  | added _ _ hm => exact absurd hm (Message.not_isManipulation_of_isDefinitionFrame hdef)
  | answered result _ hreplies =>
    -- what is added or still to come leads to a second answer
    have hopen : rest ≠ [] ∨ s.transaction.isSome = true := by
      rcases hmore with hmore | hmore
      · obtain ⟨m, hm⟩ := List.exists_mem_of_ne_nil front hmore
        exact Or.inr (hturns.isSome_transaction (Or.inl ⟨m, hm, (hfront m hm).2⟩))
      · exact Or.inl hmore
    refine (((serveFrom_ensures_reply messagesTuple rest s hopen).and
      (serveFrom_ensures_meets P messagesTuple rest s)).can failing).mono ?_
    rintro after o ⟨⟨hafter, hmeets⟩, hfail⟩
    refine ⟨mt hmeets.mpr (not_meetsUnknown_of_failing hfail), ?_⟩
    rintro ⟨ho, result', htotal, -⟩
    rw [replies_append, replies_append, hreplies,
      hturns.replies_eq_nil (fun m hm => (hfront m hm).1), List.nil_append,
      List.singleton_append, List.cons.injEq] at htotal
    exact hafter ho htotal.2

/-- Messages that are no such list have a run without exactly one answer,
whatever the stores hold. -/
theorem can_not_answered (messagesTuple : FrameMessagesTuple)
    (h : ¬ Answerable messagesTuple.messages) :
    (serveFrom P messagesTuple messagesTuple.messages ⟨none, []⟩).Can (fun trace o =>
      o ≠ .error .columnType
        ∧ ¬ Answered P messagesTuple.identifier messagesTuple.transactionID trace o) := by
  generalize messagesTuple.messages = messages at h
  by_cases hnil : messages = []
  · subst hnil
    refine Prog.can_pure.mpr ⟨by simp, ?_⟩
    rintro ⟨-, result, hreplies, -⟩
    exact absurd hreplies (List.cons_ne_nil _ _).symm
  · obtain ⟨front, message, rest, rfl, hfront, hmessage⟩ :=
      exists_first_of_not_answerable hnil h
    refine can_serveFrom_append (fun m hm => (hfront m hm).2.2) ?_
    intro before s hturns
    rcases hmessage with hdef | hlacks
    · refine can_not_answered_of_isDefinitionFrame hturns
        (fun m hm => ⟨(hfront m hm).1, (hfront m hm).2.1⟩) hdef ?_
      by_contra hsingle
      rw [not_or, not_not, not_not] at hsingle
      refine h ⟨hnil, Or.inl ⟨message, ?_, hdef⟩⟩
      rw [hsingle.1, hsingle.2]
      rfl
    · obtain ⟨f, hne, hf⟩ := can_fault_of_lacks messagesTuple s hlacks
      refine can_serveFrom_fault hf (fun trace => ⟨by simpa using hne, ?_⟩)
      exact fun hanswered => absurd hanswered.1 (by simp)

/-- **A `GET` of another store can end the server**, while the rows of these
stores can all be shown. -/
theorem can_abort_of_reads {typed : Bytes → Prop} (messagesTuple : FrameMessagesTuple)
    (h : ∀ m ∈ reached messagesTuple.messages, ¬ m.LacksStore)
    (hreads : ¬ ReadsOnly typed messagesTuple.messages) :
    (serveFrom P messagesTuple messagesTuple.messages ⟨none, []⟩).Can (fun trace o =>
      o = .error .columnType ∧ ¬ MeetsUnknown typed trace) := by
  generalize messagesTuple.messages = messages at h hreads
  unfold ReadsOnly at hreads
  push Not at hreads
  obtain ⟨hreached, m, hm, storeName, hread, hstore⟩ := hreads
  have hman : m.isManipulation = true := by
    cases m <;> first | rfl | exact nomatch hread
  have hpass : ∀ m ∈ messages, m.canPass = true := by
    intro m hm
    have hmem : m ∈ reached messages := hreached.symm ▸ hm
    have hkind := List.mem_takeWhile_imp (p := fun m => isDefinitionFrame m || m.isManipulation)
      hmem
    rcases Bool.or_eq_true _ _ |>.mp hkind with hd | hman
    · exact Message.canPass_of_isDefinitionFrame hd
    · exact Message.canPass_of_isManipulation hman (fun hs => h m hmem ⟨hman, hs⟩)
  rw [← List.append_nil messages]
  refine can_serveFrom_append hpass (fun before s hturns => ?_)
  -- all are added, and the rows of this one cannot be shown
  obtain ⟨operation, hmem, hadds⟩ := hturns.exists_operation.2 m hm hman
  have hopen := hturns.isSome_transaction (Or.inl ⟨m, hm, hman⟩)
  have hget : operation.type = .get := by
    rw [hadds.type_eq]
    cases m <;> first | rfl | exact nomatch hread
  obtain ⟨hname, hrecords⟩ := hadds.reads storeName hread
  refine (can_finish_unknown P typed messagesTuple hopen
    ⟨operation, hmem, hget, hname ▸ hstore, hrecords⟩).mono ?_
  rintro after _ ⟨rfl, hshown⟩
  rw [meetsUnknown_append_iff hturns.commits]
  exact ⟨rfl, hshown⟩

/-- **A tuple is answered exactly once, whatever the outcomes, exactly if
its messages are such a list**, and what it commits reads only stores that show
no type the protocol does not have. -/
theorem serve_ensures_answered_iff (typed : Bytes → Prop) (messagesTuple : FrameMessagesTuple) :
    (serve P messagesTuple).Ensures (fun trace o => ¬ MeetsUnknown typed trace →
        Answered P messagesTuple.identifier messagesTuple.transactionID trace o)
      ↔ Answerable messagesTuple.messages ∧ ReadsOnly typed messagesTuple.messages := by
  rw [serve_eq]
  constructor
  · intro h
    have hanswerable : Answerable messagesTuple.messages := by
      by_contra hnot
      refine ((can_not_answered messagesTuple hnot).and_ensures
        (serveFrom_ensures_meets P messagesTuple _ _)).mono ?_ |>.not_ensures h
      rintro trace o ⟨⟨hne, hnot⟩, hmeets⟩ hanswered
      exact hnot (hanswered (fun hm => hne (hmeets.mp hm.anyStore)))
    refine ⟨hanswerable, ?_⟩
    by_contra hreads
    refine ((can_abort_of_reads messagesTuple (fun m hm => ?_) hreads).mono ?_).not_ensures h
    · exact (hanswerable.not_lacks m hm).1
    · rintro trace o ⟨rfl, hshown⟩ hanswered
      exact absurd (hanswered hshown).1 (by simp)
  · rintro ⟨⟨hnil, ⟨message, hms, hd⟩ | h⟩, hreads⟩
    · rw [hms]
      refine ensures_serveFrom_cons P ?_ ?_ ?_
      · intro front next hturn
        cases hturn with
        | added _ _ hm =>
          exact absurd hm (Message.not_isManipulation_of_isDefinitionFrame hd)
        | answered result _ hreplies hid =>
          refine Prog.ensures_pure.mpr (fun _ => ?_)
          rw [List.append_nil]
          exact ⟨rfl, result, hreplies, hid⟩
      · rintro trace (_ | _ | ⟨result, _, hreplies, hid, _, _⟩) -
        exact ⟨rfl, result, hreplies, hid⟩
      · rintro trace f (_ | _ | _ | ⟨_, hm, _, _⟩)
        exact absurd hm (Message.not_isManipulation_of_isDefinitionFrame hd)
    · refine serveFrom_ensures_answered messagesTuple _ _ (Or.inl hnil) h (fun hreached => ?_)
      exact ⟨fun o ho => absurd ho List.not_mem_nil, hreads hreached⟩

/-! ## Transactions that do not end the server -/

/-- **Messages the server survives**: every operation the loop can get to names
its store and compares no column a table might lack, and what is committed
reads these stores alone. -/
structure Faultless (typed : Bytes → Prop) (messages : List Message) : Prop where
  not_lacks : ∀ m ∈ reached messages, ¬ m.LacksStore ∧ ¬ m.MayLackColumn
  readsOnly : ReadsOnly typed messages

/-- What can be answered is survived. -/
theorem Answerable.faultless {typed : Bytes → Prop} {messages : List Message}
    (h : Answerable messages) (hreads : ReadsOnly typed messages) :
    Faultless typed messages :=
  ⟨h.not_lacks, hreads⟩

/-- **The loop over such messages** comes to its end, and what it has prepared
then reads only these stores. -/
theorem executeMessages_returns {typed : Bytes → Prop} (messagesTuple : FrameMessagesTuple)
    {messages : List Message} (s : LoopState)
    (h : ∀ m ∈ reached messages, ¬ m.LacksStore ∧ ¬ m.MayLackColumn)
    (hreads : reached messages = messages →
      (∀ o ∈ s.transactionOperations, o.type = .get → typed o.operation.storeName)
        ∧ ∀ m ∈ messages, ∀ storeName ∈ m.readStore, typed storeName) :
    (executeMessages P messagesTuple messages s).Returns (fun _ last =>
      ∀ s' ∈ last, ∀ o ∈ s'.transactionOperations, o.type = .get →
        typed o.operation.storeName) := by
  induction messages generalizing s with
  | nil =>
    refine Prog.returns_pure (fun s' hs' => ?_)
    obtain rfl := Option.some.inj hs'
    exact (hreads rfl).1
  | cons message messages ih =>
    unfold executeMessages
    refine (executeMessage_cases P messagesTuple s message).bind ?_ ?_
    · rintro trace f (_ | _ | _ | ⟨_, hm, hfault, _⟩)
      rw [reached_cons (Or.inr hm), List.forall_mem_cons] at h
      rcases hfault with ⟨-, hl⟩ | ⟨-, hl⟩
      · exact absurd hl h.1.1
      · exact absurd hl h.1.2
    · intro front next hturn
      cases hturn with
      | answered result hd =>
        rw [reached_cons (Or.inl hd)] at h hreads
        rw [List.forall_mem_cons] at h
        refine ih s h.2 (fun hrest => ?_)
        obtain ⟨hops, hmessages⟩ := hreads (by rw [hrest])
        exact ⟨hops, (List.forall_mem_cons.mp hmessages).2⟩
      | added transaction operation hm hstores hadds =>
        rw [reached_cons (Or.inr hm)] at h hreads
        rw [List.forall_mem_cons] at h
        refine ih _ h.2 (fun hrest => ?_)
        obtain ⟨hops, hmessages⟩ := hreads (by rw [hrest])
        rw [List.forall_mem_cons] at hmessages
        refine ⟨fun o ho hget => ?_, hmessages.2⟩
        rcases List.mem_append.mp ho with ho | ho
        · exact hops o ho hget
        · rw [List.mem_singleton.mp ho] at hget ⊢
          exact hadds.storeName_of_get hget hstores hmessages.1
      | broke => exact Prog.returns_pure (fun s' hs' => absurd hs' (Option.not_mem_none s'))

/-- **Such a tuple is executed**, and what is prepared for it reads only these
stores. -/
theorem execute_returns_of_faultless {typed : Bytes → Prop} {t : FrameMessagesTuple}
    (h : Faultless typed t.messages) :
    (execute P t).Returns (fun _ prepared => ∀ state ∈ prepared, state.ReadsOnly typed) := by
  have hloop : (executeMessages P t t.messages ⟨none, []⟩).Returns (fun _ last =>
      ∀ s' ∈ last, ∀ o ∈ s'.transactionOperations, o.type = .get →
        typed o.operation.storeName) :=
    executeMessages_returns t ⟨none, []⟩ h.not_lacks
      (fun hreached => ⟨fun o ho => absurd ho List.not_mem_nil, h.readsOnly hreached⟩)
  refine hloop.bind ?_
  rintro front (_ | ⟨_ | transaction, transactionOperations⟩) hlast
  · exact Prog.returns_pure (fun state hstate => absurd hstate (Option.not_mem_none state))
  · exact Prog.returns_pure (fun state hstate => absurd hstate (Option.not_mem_none state))
  · refine Prog.ensures_call.mpr (fun _ => Prog.returns_pure (fun state hstate => ?_))
    obtain rfl := Option.some.inj hstate
    exact hlast _ rfl

/-- An operation that lacks its store, or may lack a column, can end the server
where the loop gets to it. -/
theorem can_fault_of_reached (messagesTuple : FrameMessagesTuple) {messages : List Message}
    (h : ∃ m ∈ reached messages, m.LacksStore ∨ m.MayLackColumn) (s : LoopState) :
    (serveFrom P messagesTuple messages s).Can (fun _ o =>
      ∃ f, f ≠ .columnType ∧ o = .error f) := by
  obtain ⟨m, hm, hlacks⟩ := h
  obtain ⟨front, message, rest, rfl, hfront, -, hmessage⟩ := exists_first_of_mem_takeWhile
    (q := fun m : Message => decide (m.LacksStore ∨ m.MayLackColumn))
    ⟨m, hm, decide_eq_true hlacks⟩
  have hpass : ∀ m ∈ front, m.canPass = true := by
    intro m hm
    obtain ⟨hkind, hstore⟩ := hfront m hm
    rcases Bool.or_eq_true _ _ |>.mp hkind with hd | hman
    · exact Message.canPass_of_isDefinitionFrame hd
    · exact Message.canPass_of_isManipulation hman
        (fun hs => of_decide_eq_false hstore (Or.inl ⟨hman, hs⟩))
  refine can_serveFrom_append hpass (fun before s _ => ?_)
  obtain ⟨f, hne, hf⟩ := can_fault_of_lacks (P := P) messagesTuple s (of_decide_eq_true hmessage)
  exact can_serveFrom_fault hf (fun trace => ⟨f, hne, rfl⟩)

/-- **A tuple never ends the server exactly if the server survives its
messages**, as long as these stores show no type the protocol does not have. -/
theorem serve_returns_iff (typed : Bytes → Prop) (messagesTuple : FrameMessagesTuple) :
    (serve P messagesTuple).Ensures (fun trace o => ¬ MeetsUnknown typed trace → o = .ok ())
      ↔ Faultless typed messagesTuple.messages := by
  constructor
  · intro h
    rw [serve_eq] at h
    have hlacks : ∀ m ∈ reached messagesTuple.messages, ¬ m.LacksStore ∧ ¬ m.MayLackColumn := by
      by_contra hbad
      push Not at hbad
      obtain ⟨m, hm, hbad⟩ := hbad
      refine (((can_fault_of_reached messagesTuple ⟨m, hm, or_iff_not_imp_left.mpr hbad⟩
        ⟨none, []⟩).and_ensures (serveFrom_ensures_meets P messagesTuple _ _)).mono
          ?_).not_ensures h
      rintro trace o ⟨⟨f, hne, rfl⟩, hmeets⟩ hreturns
      refine absurd (hreturns (fun hm => ?_)) (by simp)
      exact hne (Except.error.inj (hmeets.mp hm.anyStore))
    refine ⟨hlacks, ?_⟩
    by_contra hreads
    refine ((can_abort_of_reads messagesTuple (fun m hm => (hlacks m hm).1)
      hreads).mono ?_).not_ensures h
    rintro trace o ⟨rfl, hshown⟩ hreturns
    exact absurd (hreturns hshown) (by simp)
  · intro h
    refine (execute_returns_of_faultless h).bind (fun front prepared hprepared => ?_)
    cases prepared with
    | none => exact Prog.ensures_pure.mpr (fun _ => rfl)
    | some state =>
      refine (complete_ensures P state).mono ?_
      rintro rest o (⟨ho, -⟩ | ⟨-, ha⟩) hknown
      · exact ho
      · exact absurd ((ha.meetsUnknown typed (hprepared state rfl)).append_left front) hknown

/-! ## All transactions of a frame -/

/-- The identifiers the client gave: that of the frame, or one for each
item. -/
def transactionIDs (frame : Frame) : List Bytes :=
  match frame.identifier with
  | some id => [id]
  | none => frame.item.map (fun item => item.identifier.getD [])

variable (P) in
/-- **All transactions of a frame are answered** by a database whose `typed`
stores are of columns that the protocol has types for: the tuples of the frame
are its transactions, one each, and every run of each sends its one result to
the client. Where no store is `typed`, this is about all runs there are. -/
def AnswersAll (typed : Bytes → Prop) (message identifier : Bytes) (frame : Frame) : Prop :=
  List.Forall₂ (fun transactionID messagesTuple =>
      (serve P messagesTuple).Ensures (fun trace o =>
        ¬ MeetsUnknown typed trace → Answered P identifier transactionID trace o))
    (transactionIDs frame) (decode P message (some identifier))

/-- Of any database, all transactions of a frame are answered if every run of
them sends its one result. -/
theorem answersAll_false_iff {message identifier : Bytes} {frame : Frame} :
    AnswersAll P (fun _ => False) message identifier frame
      ↔ List.Forall₂ (fun transactionID messagesTuple =>
          (serve P messagesTuple).Ensures (Answered P identifier transactionID))
        (transactionIDs frame) (decode P message (some identifier)) := by
  have hruns : ∀ transactionID messagesTuple,
      (serve P messagesTuple).Ensures (fun trace o =>
          ¬ MeetsUnknown (fun _ => False) trace → Answered P identifier transactionID trace o)
        ↔ (serve P messagesTuple).Ensures (Answered P identifier transactionID) :=
    fun _ _ => ⟨fun h => h.mono (fun _ _ h => h not_meetsUnknown_false),
      fun h => h.mono (fun _ _ h _ => h)⟩
  unfold AnswersAll
  simp only [hruns]

variable (P) in
/-- The messages that can be read of a frame. -/
def readMessages (frame : Frame) : List Message :=
  (frame.item.filter (fun item => Decodable P item)).filterMap (denotes P)

variable (P) in
/-- **Frames that get all their answers**: the messages that can be read of
an atomic frame are answered exactly once; of any other frame every item
can be read, and is. What is committed reads only stores whose columns the
protocol has types for. -/
def AnswerableFrame (typed : Bytes → Prop) (frame : Frame) : Prop :=
  match frame.identifier with
  | some _ => Answerable (readMessages P frame) ∧ ReadsOnly typed (readMessages P frame)
  | none => ∀ item ∈ frame.item,
      Decodable P item ∧ ∀ message, denotes P item = some message →
        Answerable [message] ∧ ReadsOnly typed [message]

/-- **All transactions of a frame are answered, exactly for these
frames.** -/
theorem answersAll_iff (typed : Bytes → Prop) (message identifier : Bytes) (frame : Frame)
    (h : P.frame.parse message = some frame) :
    AnswersAll P typed message identifier frame ↔ AnswerableFrame P typed frame := by
  obtain ⟨id, items⟩ := frame
  unfold AnswersAll AnswerableFrame
  rw [decode_of_parse P h]
  cases id with
  | some id =>
    rw [decodeFrame_atomic]
    simp only [transactionIDs, List.forall₂_cons, List.Forall₂.nil, and_true]
    rw [readMessages, ← filterMap_decodeItem]
    exact serve_ensures_answered_iff typed ⟨id, identifier, _⟩
  | none =>
    rw [decodeFrame_plain]
    simp only [transactionIDs]
    rw [List.forall₂_map_left_iff, List.forall₂_map_right_iff, List.forall₂_same]
    refine forall₂_congr (fun item _ => ?_)
    unfold itemTuple
    by_cases hread : Decodable P item
    · obtain ⟨m, hm⟩ := Option.isSome_iff_exists.mp hread.2
      rw [decodeItem_of_decodable P hread, hm, and_iff_right hread]
      simp only [Option.some.injEq, forall_eq']
      exact serve_ensures_answered_iff typed ⟨item.identifier.getD [], identifier, [m]⟩
    · -- its tuple has no messages, and nothing is ever sent for it
      rw [decodeItem_of_not_decodable P hread]
      refine iff_of_false (fun hall => ?_) (fun hand => hread hand.1)
      obtain ⟨-, result, hreplies, -⟩ := hall [] (.ok ()) (.pure ()) not_false
      exact absurd hreplies (List.cons_ne_nil _ _).symm

/-- A `SET` and a `GET` of the store `t`, as one request. -/
def setGetFrame : Frame :=
  ⟨some (ascii "x"), [⟨.set, wireFormat.set.serialize ⟨[⟨ascii "t"⟩], [], []⟩, none⟩,
    ⟨.get, wireFormat.get.serialize ⟨[⟨ascii "t"⟩], [], []⟩, none⟩]⟩

/-- The request is answered where `t` is of columns the protocol has types
for. -/
theorem answersAll_iff_setGet :
    AnswersAll wireFormat (· = ascii "t") (wireFormat.frame.serialize setGetFrame)
      (ascii "c") setGetFrame := by
  refine (answersAll_iff _ _ _ setGetFrame (wireFormat.frame.parse_serialize _)).mpr ?_
  have hmessages : readMessages wireFormat setGetFrame
      = [.set ⟨[⟨ascii "t"⟩], [], []⟩, .get ⟨[⟨ascii "t"⟩], [], []⟩] := by decide
  show Answerable (readMessages wireFormat setGetFrame)
    ∧ ReadsOnly (· = ascii "t") (readMessages wireFormat setGetFrame)
  rw [hmessages]
  exact ⟨⟨by decide, Or.inr (by decide)⟩, fun _ => by decide⟩

/-- **A client that waits forever**: the operation to create a database,
framed by the client under an identifier, is never answered. -/
theorem not_answersAll_createDatabase :
    ¬ AnswersAll wireFormat (fun _ => False)
      (wireFormat.frame.serialize
        ⟨none, [{ createDatabaseItem with identifier := some (ascii "x") }]⟩)
      (ascii "c") ⟨none, [{ createDatabaseItem with identifier := some (ascii "x") }]⟩ := by
  unfold AnswersAll
  rw [decode_serialize, decodeFrame_plain]
  intro hall
  obtain ⟨-, result, hreplies, -⟩ :=
    (List.forall₂_cons.mp hall).1 [] (.ok ()) (.pure ()) not_false
  exact absurd hreplies (List.cons_ne_nil _ _).symm

/-! ## The store of an operation -/

variable (P) in
/-- **The run looks before it reads a store**: it never reads the store of
an operation that names none, and if the transaction has such an operation
it tells the client an error. -/
def StoreChecked (messages : List Message) (trace : Trace) (o : Except Fault Unit) : Prop :=
  o ≠ .error .storeInfo
    ∧ ((∃ m ∈ messages, m.LacksStore) → o = .ok () → HasErrorReply P trace)

variable (P) in
/-- **What the bytes of a request are served with**: every tuple they
decode to, and every run of it, looks before it reads a store. -/
def ChecksStores (message : Bytes) (identifier : Option Bytes) : Prop :=
  ∀ messagesTuple ∈ decode P message identifier,
    (serve P messagesTuple).Ensures (StoreChecked P messagesTuple.messages)

/-- Where every operation the loop gets to names its store, none is read
that is not there; and if there are messages the loop does not get to, the
client is told an error. -/
theorem serveFrom_ensures_storeChecked (messagesTuple : FrameMessagesTuple)
    (messages : List Message) (s : LoopState)
    (h : ∀ m ∈ reached messages, ¬ m.LacksStore) :
    (serveFrom P messagesTuple messages s).Ensures (fun trace o =>
      o ≠ .error .storeInfo
        ∧ (reached messages ≠ messages → o = .ok () → HasErrorReply P trace)) := by
  induction messages generalizing s with
  | nil =>
    refine (finish_ensures P messagesTuple s).mono ?_
    intro trace o hfinish
    refine ⟨?_, fun hne => absurd rfl hne⟩
    cases hs : s.transaction with
    | none =>
      rw [hs] at hfinish
      simp [hfinish.1]
    | some transaction =>
      rw [hs] at hfinish
      rcases hfinish with ⟨rfl, -⟩ | ⟨rfl, -⟩
      · simp
      · simp
  | cons message messages ih =>
    have hnext : ∀ front next, reached (message :: messages) = message :: reached messages →
        (serveFrom P messagesTuple messages next).Ensures (fun rest o =>
          o ≠ .error .storeInfo ∧ (reached (message :: messages) ≠ message :: messages →
            o = .ok () → HasErrorReply P (front ++ rest))) := by
      intro front next hcons
      rw [hcons, List.forall_mem_cons] at h
      refine (ih next h.2).mono ?_
      rintro rest o ⟨hfault, herror⟩
      refine ⟨hfault, fun hne ho => hasErrorReply_append.mpr (Or.inr (herror ?_ ho))⟩
      exact fun heq => hne (by rw [hcons, heq])
    refine ensures_serveFrom_cons P ?_ ?_ ?_
    · intro front next hturn
      cases hturn with
      | answered result hd => exact hnext front s (reached_cons (Or.inl hd))
      | added transaction operation hm => exact hnext front _ (reached_cons (Or.inr hm))
    · rintro trace (_ | _ | ⟨result, _, hreplies, _, herror, _⟩)
      exact ⟨by simp, fun _ _ => (hasErrorReply_of_replies_eq hreplies).mpr herror⟩
    · rintro trace f (_ | _ | _ | ⟨_, hm, hfault, _⟩)
      refine ⟨fun hf => ?_, fun _ ho => absurd ho (by simp)⟩
      obtain rfl := Except.error.inj hf
      rw [reached_cons (Or.inr hm), List.forall_mem_cons] at h
      rcases hfault with ⟨-, hl⟩ | ⟨hf, -⟩
      · exact h.1 hl
      · exact Fault.noConfusion hf

/-- **A tuple is served so, exactly if every operation the loop can get to
names its store.** -/
theorem serve_ensures_storeChecked_iff (messagesTuple : FrameMessagesTuple) :
    (serve P messagesTuple).Ensures (StoreChecked P messagesTuple.messages)
      ↔ ∀ m ∈ reached messagesTuple.messages, ¬ m.LacksStore := by
  rw [serve_eq]
  constructor
  · intro h m hm hl
    refine (?_ : Prog.Can _ _).not_ensures h
    clear h
    generalize messagesTuple.messages = messages at hm
    obtain ⟨front, message, rest, rfl, hfront, -, hmessage⟩ :=
      exists_first_of_mem_takeWhile (q := fun m : Message => decide m.LacksStore)
        ⟨m, hm, decide_eq_true hl⟩
    have hpass : ∀ m ∈ front, m.canPass = true := by
      intro m hm
      obtain ⟨hkind, hstore⟩ := hfront m hm
      rcases Bool.or_eq_true _ _ |>.mp hkind with hd | hman
      · exact Message.canPass_of_isDefinitionFrame hd
      · exact Message.canPass_of_isManipulation hman
          (fun hs => of_decide_eq_false hstore ⟨hman, hs⟩)
    refine can_serveFrom_append hpass (fun before s _ => ?_)
    exact can_serveFrom_fault
      (can_fault_of_lacksStore P messagesTuple s (of_decide_eq_true hmessage))
      (fun trace hchecked => hchecked.1 rfl)
  · intro h
    refine (serveFrom_ensures_storeChecked messagesTuple _ _ h).mono ?_
    rintro trace o ⟨hfault, herror⟩
    refine ⟨hfault, fun ⟨m, hm, hl⟩ ho => herror (fun heq => ?_) ho⟩
    exact h m (by rwa [heq]) hl

variable (P) in
/-- **Frames whose operations name their stores**, as far as the loop can
get: every item of a plain frame, and of an atomic one those before the
first that is no operation. -/
def NamesStores (frame : Frame) : Prop :=
  match frame.identifier with
  | some _ => ∀ m ∈ reached
      ((frame.item.filter (fun item => Decodable P item)).filterMap (denotes P)),
        ¬ m.LacksStore
  | none => ∀ item ∈ frame.item, Decodable P item →
      ∀ message, denotes P item = some message → ¬ message.LacksStore

theorem forall_mem_reached_singleton {message : Message} :
    (∀ m ∈ reached [message], ¬ m.LacksStore) ↔ ¬ message.LacksStore := by
  by_cases hm : message.isManipulation = true
  · rw [reached_cons (Or.inr hm), reached, List.takeWhile_nil, List.forall_mem_singleton]
  · refine iff_of_true (fun m hmem => ?_) (fun hl => hm hl.1)
    rw [List.mem_singleton.mp ((List.takeWhile_sublist _).subset hmem)]
    exact fun hl => hm hl.1

/-- **The bytes of a request are served with a look before every read of a
store, exactly if they are no frame or one whose operations name their
stores.** -/
theorem checksStores_iff (message : Bytes) (identifier : Option Bytes) :
    ChecksStores P message identifier
      ↔ ∀ frame, P.frame.parse message = some frame → NamesStores P frame := by
  unfold ChecksStores
  simp only [serve_ensures_storeChecked_iff]
  cases hp : P.frame.parse message with
  | none => simp [decode, hp]
  | some frame =>
    obtain ⟨id, items⟩ := frame
    simp only [Option.some.injEq, forall_eq', decode_of_parse P hp]
    unfold NamesStores
    cases id with
    | some id =>
      rw [decodeFrame_atomic, List.forall_mem_singleton]
      simp only [filterMap_decodeItem]
    | none =>
      rw [decodeFrame_plain, List.forall_mem_map]
      refine forall₂_congr (fun item _ => ?_)
      unfold itemTuple
      by_cases hread : Decodable P item
      · obtain ⟨m, hm⟩ := Option.isSome_iff_exists.mp hread.2
        rw [decodeItem_of_decodable P hread, hm]
        simp only [hread, Option.some.injEq, forall_eq', forall_true_left]
        exact forall_mem_reached_singleton
      · rw [decodeItem_of_not_decodable P hread]
        exact iff_of_true (fun m hm => absurd hm List.not_mem_nil)
          (fun h => absurd h hread)

/-- A `SET` with an empty payload, which parses. -/
def emptySetItem : FrameItem := ⟨.set, [], some (ascii "x")⟩

/-- **An empty payload reads a store that is not there.** -/
theorem not_checksStores_emptySet :
    wireFormat.set.parse [] = some ⟨[], [], []⟩
      ∧ ¬ ChecksStores wireFormat (wireFormat.frame.serialize ⟨none, [emptySetItem]⟩)
        (some (ascii "c")) := by
  refine ⟨by decide, fun h => ?_⟩
  have htuple : decode wireFormat (wireFormat.frame.serialize ⟨none, [emptySetItem]⟩)
      (some (ascii "c")) = [⟨ascii "x", ascii "c", [.set ⟨[], [], []⟩]⟩] := by
    rw [decode_serialize, decodeFrame_plain]
    rfl
  have hserve := h _ (htuple ▸ List.mem_singleton_self _)
  exact (serve_ensures_storeChecked_iff _).mp hserve _ (List.mem_singleton_self _) ⟨rfl, rfl⟩

end VoloDB
