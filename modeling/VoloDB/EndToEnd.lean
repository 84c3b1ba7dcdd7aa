import VoloDB.Settling

/-!
# One result for each transaction

What an application sees of it all is this: it calls `execute` with
operations and identifiers, and its delegate is handed results with
identifiers. Whatever the threads of all clients and of the server do, the
identifiers it is handed are some of those it has asked for, each as often as
it was asked for at most (`answeredTo_le_askedBy`); when nothing is on its
way any more, they are all of them (`answeredTo_eq_askedBy`); and to this it
can always come (`everything_answered`).

The first comes from the balance of the server in any state: what has been
handed over was answered, and one answer belongs to one tuple that was asked
for. The second comes from its balance at rest.
-/

namespace VoloDB

open Interaction FrameDecoder NDBMessageExecutor

namespace Deployment

variable {P : Protobuf} {T : Pipeline.Threads} {C : Clients}

/-! ## Sums of bags -/

/-- A sum, through a map that keeps sums. -/
theorem filter_sum_eq {α : Type} {p : α → Prop} [DecidablePred p] {F : Nat → Multiset α}
    {n k : Nat} (hk : k < n) (h : ∀ i, ∀ x ∈ F i, p x ↔ i = k) :
    (∑ i ∈ Finset.range n, F i).filter p = F k := by
  have hfilter : ∀ i, (F i).filter p = if k = i then F i else 0 := by
    intro i
    by_cases hi : k = i
    · rw [if_pos hi]
      exact Multiset.filter_eq_self.mpr (fun x hx => (h i x hx).mpr hi.symm)
    · rw [if_neg hi]
      exact Multiset.filter_eq_nil.mpr (fun x hx hp => hi ((h i x hx).mp hp).symm)
  let φ : Multiset α →+ Multiset α := ⟨⟨Multiset.filter p, Multiset.filter_zero p⟩,
    Multiset.filter_add p⟩
  show φ _ = _
  rw [map_sum]
  show ∑ i ∈ Finset.range n, (F i).filter p = F k
  rw [Finset.sum_congr rfl (fun i _ => hfilter i), Finset.sum_ite_eq,
    if_pos (Finset.mem_range.mpr hk)]

theorem bind_sum {α β : Type} (f : α → Multiset β) (F : Nat → Multiset α) (n : Nat) :
    (∑ i ∈ Finset.range n, F i).bind f = ∑ i ∈ Finset.range n, (F i).bind f := by
  let φ : Multiset α →+ Multiset β := ⟨⟨fun s => s.bind f, Multiset.zero_bind f⟩,
    fun s t => Multiset.add_bind s t f⟩
  exact map_sum φ F _

/-- What is related keeps its partners when both sides are picked by what the
relation keeps. -/
theorem rel_filter {α β : Type} {r : α → β → Prop} {p : α → Prop} {q : β → Prop}
    [DecidablePred p] [DecidablePred q] (hpq : ∀ a b, r a b → (p a ↔ q b)) {s : Multiset α}
    {t : Multiset β} (h : Multiset.Rel r s t) : Multiset.Rel r (s.filter p) (t.filter q) := by
  induction h with
  | zero => exact .zero
  | @cons a b s t hab _ ih =>
    by_cases hp : p a
    · rw [Multiset.filter_cons_of_pos s hp, Multiset.filter_cons_of_pos t ((hpq a b hab).mp hp)]
      exact .cons hab ih
    · rw [Multiset.filter_cons_of_neg s hp,
        Multiset.filter_cons_of_neg t (fun hq => hp ((hpq a b hab).mpr hq))]
      exact ih

/-! ## The account of a connection -/

variable {s : State P} {k : Nat}

/-- What is decoded from what arrives. -/
def tuplesOf (P : Protobuf) (frames : Multiset (Bytes × Bytes)) : Multiset FrameMessagesTuple :=
  frames.bind (fun frame => decodePair P frame)

theorem tuplesOf_add (frames frames' : Multiset (Bytes × Bytes)) :
    tuplesOf P (frames + frames') = tuplesOf P frames + tuplesOf P frames' :=
  Multiset.add_bind _ _ _

theorem asked_eq_tuplesOf (server : Pipeline.State) :
    server.asked P T = tuplesOf P (arrived T server) := by
  unfold tuplesOf arrived Pipeline.State.asked
  rw [bind_sum]
  exact Finset.sum_congr rfl (fun d _ => (Multiset.coe_bind _ _).symm)

/-- The tuples of what a connection was given. -/
def Connection.tuples (C : Clients) (k : Nat) (connection : Connection P) :
    Multiset FrameMessagesTuple :=
  (connection.requests.flatMap (fun request => request.tuples (C.identity k)) :
    List FrameMessagesTuple)

theorem tuplesOf_addressed (frames : List Bytes) :
    tuplesOf P (C.addressed k frames)
      = (frames.flatMap (fun bytes => decode P bytes (some (C.identity k))) :
        List FrameMessagesTuple) := by
  unfold tuplesOf Clients.addressed
  rw [Multiset.coe_bind, List.flatMap_map]
  rfl

theorem identifier_of_mem_tuplesOf {frames : List Bytes} {t : FrameMessagesTuple}
    (h : t ∈ tuplesOf P (C.addressed k frames)) : t.identifier = C.identity k := by
  rw [tuplesOf_addressed] at h
  obtain ⟨bytes, -, ht⟩ := List.mem_flatMap.mp (Multiset.mem_coe.mp h)
  exact identifier_of_mem_decode P ht

theorem addressed_append (frames frames' : List Bytes) :
    C.addressed k (frames ++ frames') = C.addressed k frames + C.addressed k frames' := by
  unfold Clients.addressed
  rw [List.map_append, Multiset.coe_add]

/-- The frames of a connection have been sent, or wait. -/
theorem Connection.Inv.addressed_requests {connection : Connection P} (h : connection.Inv) :
    C.addressed k (connection.requests.map Request.bytes)
      = C.addressed k connection.sent
        + C.addressed k (connection.phase.unsent ++ connection.sink) := by
  have hmap := congrArg (Multiset.map (fun bytes => (C.identity k, bytes))) h.requests
  rw [add_assoc, Multiset.map_add] at hmap
  exact hmap

/-- The tuples are those that are decoded from the frames. -/
theorem Connection.tuples_eq {connection : Connection P}
    (hdatabase : ∀ request ∈ connection.requests, ∀ m ∈ request.operations,
      ClientExecutor.isDatabaseOperation m = false) :
    connection.tuples C k
      = tuplesOf P (C.addressed k (connection.requests.map Request.bytes)) := by
  rw [tuplesOf_addressed, List.flatMap_map]
  refine congrArg _ (List.flatMap_congr (fun request hrequest => ?_))
  exact (request.decode_eq (hdatabase request hrequest) _).symm

/-- **What was asked for on a connection** has come to be asked of the server,
is on its way there, or waits. -/
theorem Inv.tuples_eq (h : Inv T C s) (hk : k < C.noConnections)
    (hdatabase : ∀ request ∈ (s.connections k).requests, ∀ m ∈ request.operations,
      ClientExecutor.isDatabaseOperation m = false) :
    (s.connections k).tuples C k
      = (s.server.asked P T).filter (fun t => t.identifier = C.identity k)
        + (tuplesOf P s.requesting).filter (fun t => t.identifier = C.identity k)
        + tuplesOf P
            (C.addressed k ((s.connections k).phase.unsent ++ (s.connections k).sink)) := by
  have hsent : (tuplesOf P (s.sent C)).filter (fun t => t.identifier = C.identity k)
      = tuplesOf P (C.addressed k (s.connections k).sent) := by
    unfold State.sent
    rw [show tuplesOf P (∑ j ∈ Finset.range C.noConnections, C.addressed j (s.connections j).sent)
      = _ from bind_sum _ _ _]
    refine filter_sum_eq (F := fun j => tuplesOf P (C.addressed j (s.connections j).sent)) hk
      (fun j t ht => ?_)
    rw [identifier_of_mem_tuplesOf ht]
    exact C.identity_injective.eq_iff
  rw [Connection.tuples_eq hdatabase, (h.connection k).addressed_requests, tuplesOf_add, ← hsent,
    h.requests, tuplesOf_add, Multiset.filter_add, asked_eq_tuplesOf,
    add_comm ((tuplesOf P s.requesting).filter _)]

/-- **What was routed to a connection** is what was answered to it, save what
is on its way. -/
theorem Inv.answers_eq (h : Inv T C s) (hk : k < C.noConnections) :
    (s.server.answers T).filter (fun reply => reply.1 = C.identity k)
      = s.returning.filter (fun reply => reply.1 = C.identity k)
        + C.addressed k (s.connections k).received := by
  rw [h.replies, Multiset.filter_add]
  refine congrArg _ (filter_sum_eq (F := fun j => C.addressed j (s.connections j).received) hk
    (fun j reply hreply => ?_))
  obtain ⟨bytes, -, rfl⟩ := List.mem_map.mp (Multiset.mem_coe.mp hreply)
  exact C.identity_injective.eq_iff

/-! ## The results -/

/-- The results a worker has handed over. -/
def Connection.results (connection : Connection P) : List Result :=
  connection.responses.flatten.filterMap id

/-- **What the delegate of a client was handed results for.** -/
def State.answeredTo (C : Clients) (s : State P) (n : Nat) : Multiset Bytes :=
  ∑ k ∈ (Finset.range C.noConnections).filter (fun k => C.owner k = n),
    ((s.connections k).results.map Result.transactionIdentifier : List Bytes)

/-- **What the client has asked for.** -/
def State.askedBy (C : Clients) (s : State P) (n : Nat) : Multiset Bytes :=
  ∑ k ∈ (Finset.range C.noConnections).filter (fun k => C.owner k = n),
    ((s.connections k).requests.flatMap (fun request => request.transactions.map Prod.fst) :
      List Bytes)

/-- What a worker has handed over is what it has received, save what it still
holds. -/
theorem Connection.Inv.account {connection : Connection P} (h : connection.Inv) :
    connection.responses.flatten = connection.results.map some
      ∧ ∃ rest : List Result,
        connection.received = (connection.results ++ rest).map (replyBytes P)
        ∧ (connection.phase.received = [] → connection.inbox = [] → rest = []) := by
  obtain ⟨handed, pending, waiting, hresponses, hpending, hwaiting, hreceived⟩ := h.replies
  have hresults : connection.results = handed := by
    unfold Connection.results
    rw [hresponses, List.filterMap_map]
    exact List.filterMap_some
  rw [hresults]
  refine ⟨hresponses, pending ++ waiting, hreceived.trans (by rw [List.append_assoc]), ?_⟩
  intro hnone hempty
  rw [List.map_eq_nil_iff.mp (hpending.symm.trans hnone),
    List.map_eq_nil_iff.mp (hwaiting.symm.trans hempty)]
  rfl

/-- The transactions of a connection. -/
theorem Connection.map_transactionID_tuples (connection : Connection P) :
    (connection.tuples C k).map FrameMessagesTuple.transactionID
      = (connection.requests.flatMap (fun request => request.transactions.map Prod.fst) :
        List Bytes) := by
  unfold Connection.tuples
  rw [Multiset.map_coe, List.map_flatMap]
  refine congrArg _ (List.flatMap_congr (fun request _ => ?_))
  exact List.map_map

/-- **Replies name the transactions they answer.** -/
theorem transactionIDs_eq {asked : Multiset FrameMessagesTuple} {identity : Bytes}
    {results : List Result}
    (h : Multiset.Rel (IsReplyTo P) asked
      ((results.map (replyBytes P)).map (fun bytes => (identity, bytes)) :
        List (Bytes × Bytes))) :
    asked.map FrameMessagesTuple.transactionID
      = (results.map Result.transactionIdentifier : List Bytes) := by
  rw [List.map_map, ← Multiset.map_coe, Multiset.rel_map_right] at h
  rw [← Multiset.map_coe, ← Multiset.rel_eq, Multiset.rel_map]
  refine h.mono (fun t _ result _ hreply => ?_)
  obtain ⟨-, result', hid, hbytes⟩ := hreply
  rw [← hid, replyBytes_injective P hbytes]

/-- The identity of a reply is that of the tuple. -/
theorem identifier_iff (identity : Bytes) (t : FrameMessagesTuple) (reply : Bytes × Bytes)
    (h : IsReplyTo P t reply) : t.identifier = identity ↔ reply.1 = identity := by
  rw [h.1]

/-- No operation of a request that can be answered is on a database. -/
theorem State.Answerable.not_database (hanswerable : s.Answerable) (k : Nat) :
    ∀ request ∈ (s.connections k).requests, ∀ m ∈ request.operations,
      ClientExecutor.isDatabaseOperation m = false :=
  fun request hrequest => (hanswerable k request hrequest).1

/-- **A worker hands over no more than was asked for on its connection.** -/
theorem Inv.account_le (h : Inv T C s) (hk : k < C.noConnections) (hanswerable : s.Answerable) :
    ((s.connections k).results.map Result.transactionIdentifier : Multiset Bytes)
      ≤ ((s.connections k).requests.flatMap (fun request => request.transactions.map Prod.fst) :
        List Bytes) := by
  obtain ⟨answered, hle, hrel⟩ :=
    h.observes.exists_answered (fun client t hasked => h.answerable hanswerable hasked)
  obtain ⟨-, rest, hreceived, -⟩ := (h.connection k).account
  -- what was handed over is among the answers to this connection
  have hresults : C.addressed k ((s.connections k).results.map (replyBytes P))
      ≤ (s.server.answers T).filter (fun reply => reply.1 = C.identity k) := by
    rw [h.answers_eq hk, hreceived, List.map_append, addressed_append]
    exact (Multiset.le_add_right _ _).trans (Multiset.le_add_left _ _)
  obtain ⟨others, hothers⟩ := Multiset.le_iff_exists_add.mp hresults
  have hrel := rel_filter (identifier_iff (C.identity k)) hrel
  rw [hothers] at hrel
  obtain ⟨answered₁, answered₂, hanswered, -, hsplit⟩ := Multiset.rel_add_right.mp hrel
  rw [← transactionIDs_eq hanswered, ← Connection.map_transactionID_tuples (C := C) (k := k),
    h.tuples_eq hk (hanswerable.not_database k)]
  refine Multiset.map_le_map ?_
  calc answered₁
      ≤ answered.filter (fun t => t.identifier = C.identity k) :=
        hsplit ▸ Multiset.le_add_right _ _
    _ ≤ (s.server.asked P T).filter (fun t => t.identifier = C.identity k) :=
        Multiset.filter_le_filter _ hle
    _ ≤ _ := by
        rw [add_assoc]
        exact Multiset.le_add_right _ _

/-! ## At rest -/

/-- A worker at rest has handed over what was answered to its connection, once
nothing is on its way to the clients. -/
theorem Inv.results_eq (h : Inv T C s) (hk : k < C.noConnections) (hreturning : s.returning = 0)
    (hrest : (s.connections k).AtRest) :
    C.addressed k ((s.connections k).results.map (replyBytes P))
      = (s.server.answers T).filter (fun reply => reply.1 = C.identity k) := by
  obtain ⟨-, rest, hreceived, hnone⟩ := (h.connection k).account
  rw [hnone hrest.received hrest.inbox, List.append_nil] at hreceived
  rw [h.answers_eq hk, hreturning, Multiset.filter_zero, zero_add, hreceived]

/-- **A worker at rest has handed over what was asked for on its
connection.** -/
theorem Inv.account_eq (h : Inv T C s) (hk : k < C.noConnections)
    (hndb : ∀ e, completingContract.Admitted .empty (s.traces e)) (hanswerable : s.Answerable)
    (hquiescent : Quiescent s) (hrest : (s.connections k).AtRest) :
    ((s.connections k).results.map Result.transactionIdentifier : Multiset Bytes)
      = ((s.connections k).requests.flatMap (fun request => request.transactions.map Prod.fst) :
        List Bytes) := by
  have hregular : Pipeline.Regular P T (fun _ _ _ => True) (s.server, s.traces) :=
    h.regular (fun e => Contract.restrict_true ▸ hndb e) hanswerable
  have hrel := rel_filter (identifier_iff (C.identity k))
    (hregular.answers hquiescent.server)
  -- the answers to this connection have been handed over
  rw [← h.results_eq hk hquiescent.returning hrest] at hrel
  -- and what was asked for on it has been asked of the server
  have htuples := h.tuples_eq hk (hanswerable.not_database k)
  rw [hquiescent.requesting, hrest.unsent, hrest.sink] at htuples
  rw [← transactionIDs_eq hrel, ← Connection.map_transactionID_tuples (C := C) (k := k), htuples]
  exact congrArg _ ((add_zero _).trans (add_zero _)).symm

/-- The connections of a client are connections. -/
theorem lt_of_mem_owned {n : Nat}
    (hk : k ∈ (Finset.range C.noConnections).filter (fun k => C.owner k = n)) :
    k < C.noConnections :=
  Finset.mem_range.mp (Finset.mem_filter.mp hk).1

/-- Clients whose connections are at rest. -/
theorem Inv.answeredTo_eq (h : Inv T C s)
    (hndb : ∀ e, completingContract.Admitted .empty (s.traces e)) (hanswerable : s.Answerable)
    (hquiescent : Quiescent s) {n : Nat}
    (hrest : ∀ k < C.noConnections, C.owner k = n → (s.connections k).AtRest) :
    s.answeredTo C n = s.askedBy C n := by
  refine Finset.sum_congr rfl (fun k hk => ?_)
  have hlt := lt_of_mem_owned hk
  exact h.account_eq hlt hndb hanswerable hquiescent (hrest k hlt (Finset.mem_filter.mp hk).2)

/-- The connections of a client with worker threads have workers. -/
theorem hasWorker_of_owner {n : Nat} (hn : 0 < C.totalWorkerThreads n)
    (hk : k < C.noConnections) (howner : C.owner k = n) : C.HasWorker k := by
  refine ⟨hk, ?_⟩
  unfold Clients.outlet ClientTransport.send
  rw [howner, if_pos rfl, if_neg (Nat.ne_of_gt hn)]

/-! ## Two clients -/

theorem replicate_injective :
    Function.Injective (fun k => List.replicate (k + 1) (97 : UInt8)) := by
  intro k k' h
  have hlength := congrArg List.length h
  simpa using hlength

/-- Two clients with one worker each. -/
def twoClients : Clients where
  noConnections := 2
  owner k := k
  identity k := List.replicate (k + 1) 97
  identity_injective := replicate_injective
  totalWorkerThreads _ := 1

/-- The first client sets a row. -/
def setCall : Request wireFormat :=
  .one (show ClientExecutor.executeOne wireFormat (.set ⟨[⟨ascii "t"⟩], [], []⟩) (ascii "x")
    = .bytes Pipeline.setRequest.2 from rfl)

/-- The second reads one. -/
def getCall : Request wireFormat :=
  .one (show ClientExecutor.executeOne wireFormat
      (.get ⟨[⟨ascii "t"⟩], [⟨ascii "k", none, none, some true, ascii "v"⟩], []⟩) (ascii "y")
    = .bytes Pipeline.getRequest.2 from rfl)

/-- The first drops another store. -/
def dropCall : Request wireFormat :=
  .one (show ClientExecutor.executeOne wireFormat (.dropStore ⟨⟨ascii "u"⟩⟩) (ascii "z")
    = .bytes Pipeline.dropRequest.2 from rfl)

/-- The frames are in the sinks of the workers. -/
def called : State wireFormat :=
  State.setConnection
    (State.init.setConnection 0
      ⟨[setCall.bytes, dropCall.bytes], [], .receiving [], [setCall, dropCall], [], [], []⟩)
    1 ⟨[getCall.bytes], [], .receiving [], [getCall], [], [], []⟩

theorem reachable_called : Reachable wireFormat Pipeline.oneEach twoClients called := by
  have hworker : ∀ k < 2, twoClients.HasWorker k := fun k hk => ⟨hk, rfl⟩
  have h₁ : Reachable wireFormat Pipeline.oneEach twoClients _ :=
    .single ⟨.application, trivial, .execute (hworker 0 Nat.two_pos) rfl setCall⟩
  have h₂ := h₁.tail ⟨.application, trivial,
    .execute (hworker 0 Nat.two_pos) (connections_setConnection _ _ _) dropCall⟩
  unfold State.setConnection at h₂
  rw [Function.update_idem] at h₂
  exact h₂.tail ⟨.application, trivial, .execute (hworker 1 Nat.one_lt_two) rfl getCall⟩

theorem requests_called (k : Nat) : (called.connections k).requests
    = if k = 0 then [setCall, dropCall] else if k = 1 then [getCall] else [] := by
  match k with
  | 0 => rfl
  | 1 => rfl
  | k + 2 => rfl

/-- Each call asks for one of the three transactions. -/
theorem answerable_of_mem {request : Request P} {t : FrameMessagesTuple}
    (hdatabase : ∀ m ∈ request.operations, ClientExecutor.isDatabaseOperation m = false)
    (ht : t ∈ threeTuples) (h : request.transactions = [(t.transactionID, t.messages)]) :
    request.Answerable := by
  refine ⟨hdatabase, fun transaction htransaction => ?_⟩
  rw [h] at htransaction
  obtain rfl := List.mem_singleton.mp htransaction
  exact answerable_threeTuples t ht

theorem answerable_called : called.Answerable := by
  have hset : setCall.Answerable :=
    answerable_of_mem (by decide) (List.mem_cons_self ..) rfl
  have hget : getCall.Answerable :=
    answerable_of_mem (by decide) (List.mem_cons_of_mem _ (List.mem_cons_self ..)) rfl
  have hdrop : dropCall.Answerable :=
    answerable_of_mem (by decide) (List.mem_of_getLast? rfl) rfl
  intro k request hrequest
  rw [requests_called] at hrequest
  split_ifs at hrequest
  · rcases List.mem_pair.mp hrequest with rfl | rfl
    · exact hset
    · exact hdrop
  · obtain rfl := List.mem_singleton.mp hrequest
    exact hget
  · exact absurd hrequest List.not_mem_nil

/-- No worker has left its loop. -/
theorem running_called : called.Running twoClients := by
  intro k _
  match k with
  | 0 => exact fun ⟨_, _, h⟩ => nomatch h
  | 1 => exact fun ⟨_, _, h⟩ => nomatch h
  | k + 2 => exact fun ⟨_, _, h⟩ => nomatch h

/-- The first client has asked for two transactions, and the second for one. -/
theorem askedBy_called (n : Nat) : called.askedBy twoClients n
    = if n = 0 then {ascii "x", ascii "z"} else if n = 1 then {ascii "y"} else 0 := by
  match n with
  | 0 => rfl
  | 1 => rfl
  | n + 2 => rfl

/-- A request arrives at the definer of a server whose first threads alone have
done something. -/
theorem Follow.arriveFirst {C : Clients} {definer : Pipeline.Definer}
    {executor : Pipeline.Executor} {handed : List (Nat × Nat × List FrameMessagesTuple)}
    {pushed : List (Nat × Option FrameMessagesTuple × Bytes × Bytes)} {request : Bytes × Bytes}
    {requesting : Multiset (Bytes × Bytes)} (s : State P)
    (hserver : s.server = Pipeline.first definer executor handed pushed)
    (hrequesting : s.requesting = request ::ₘ requesting) :
    Follow P Pipeline.oneEach C Actor.IsInternal s { s with
      requesting := requesting
      server := Pipeline.first { definer with
        worker := definer.worker ++ [request]
        requests := definer.requests ++ [request] } executor handed pushed } := by
  have hdefiner : s.server.definers 0 = definer := by
    rw [hserver]
    exact Function.update_self (β := fun _ => Pipeline.Definer) 0 definer
      Pipeline.State.init.definers
  have hstep : Step P Pipeline.oneEach C s .network _ := .arrive Nat.one_pos hdefiner hrequesting
  rw [hserver] at hstep
  unfold Pipeline.first Pipeline.State.setDefiner at hstep
  rw [Function.update_idem] at hstep
  exact .single ⟨.network, Actor.noConfusion, hstep⟩

/-- **The requests have arrived**, in the order in which the server is observed. -/
theorem exists_requested :
    ∃ s, Follow wireFormat Pipeline.oneEach twoClients Actor.IsInternal called s
    ∧ s.Running twoClients ∧ s.requesting = 0
    ∧ (s.server, s.traces) = Pipeline.requested
    ∧ ∀ k, twoClients.HasWorker k → (s.connections k).AtRest := by
  obtain ⟨s, hrun, hkept, hrunning, hrest⟩ :=
    Follow.workers (T := Pipeline.oneEach) reachable_called.inv running_called
  have hinv := Follow.inv hrun reachable_called.inv
  -- all workers have sent what they were given
  have hsent : ∀ k < 2, twoClients.addressed k (s.connections k).sent
      = twoClients.addressed k ((called.connections k).requests.map Request.bytes) := by
    intro k hk
    have hatRest := hrest k ⟨hk, rfl⟩
    rw [← Follow.requests_eq hrun]
    exact congrArg (Multiset.map (fun bytes => (twoClients.identity k, bytes)))
      ((hinv.connection k).sent_eq hatRest.unsent hatRest.sink)
  have hrequesting : s.requesting
      = Pipeline.setRequest ::ₘ Pipeline.getRequest ::ₘ Pipeline.dropRequest ::ₘ 0 := by
    have hbalance := hinv.requests
    unfold State.sent at hbalance
    rw [show twoClients.noConnections = 2 from rfl, Finset.sum_range_succ, Finset.sum_range_one,
      hsent 0 Nat.two_pos, hsent 1 Nat.one_lt_two, hkept.server] at hbalance
    rw [← add_zero s.requesting]
    refine hbalance.symm.trans (Multiset.coe_eq_coe.mpr ?_)
    exact (List.Perm.swap Pipeline.getRequest Pipeline.dropRequest []).cons Pipeline.setRequest
  have hserver : s.server
      = Pipeline.first (Pipeline.State.init.definers 0) (Pipeline.State.init.executors 0) [] [] :=
    hkept.server.trans Pipeline.first_init.symm
  have h₁ := Follow.arriveFirst (C := twoClients) s hserver hrequesting
  have h₂ := h₁.trans (Follow.arriveFirst _ rfl
    (show _ = Pipeline.getRequest ::ₘ Pipeline.dropRequest ::ₘ 0 from rfl))
  have h₃ := h₂.trans (Follow.arriveFirst _ rfl (show _ = Pipeline.dropRequest ::ₘ 0 from rfl))
  refine ⟨_, hrun.trans h₃, hrunning, rfl, ?_, hrest⟩
  have htraces : s.traces = Pipeline.firstTraces [] :=
    hkept.traces.trans (Function.update_eq_self 0 (fun _ => [])).symm
  rw [htraces]
  rfl

/-- **The server has gone through its run**, in whole or in part, and the clients
have been handed what it has sent. -/
theorem exists_served {definer : Pipeline.Definer} {executor : Pipeline.Executor}
    {handed : List (Nat × Nat × List FrameMessagesTuple)}
    {pushed : List (Nat × Option FrameMessagesTuple × Bytes × Bytes)} {trace : Trace}
    (h : Pipeline.Watched wireFormat Pipeline.oneEach Pipeline.requested definer executor handed
      pushed trace) :
    ∃ s, Reachable wireFormat Pipeline.oneEach twoClients s ∧ s.Running twoClients
      ∧ s.requesting = 0 ∧ s.returning = 0
      ∧ s.server = Pipeline.first definer executor handed pushed
      ∧ s.traces = Pipeline.firstTraces trace
      ∧ (∀ k, twoClients.HasWorker k → (s.connections k).AtRest)
      ∧ ∀ k, (s.connections k).requests = (called.connections k).requests := by
  obtain ⟨s₁, hrun₁, hrunning₁, hrequesting₁, hserver₁, hrest₁⟩ := exists_requested
  have hinv₁ := Follow.inv hrun₁ reachable_called.inv
  rw [← hserver₁] at h
  obtain ⟨s, hrun₂, hrunning, hrequesting, hreturning, hserver, htraces, hrest⟩ :=
    Follow.conclude hinv₁ hrunning₁ (fun k hk => ⟨(hrest₁ k hk).unsent, (hrest₁ k hk).sink⟩)
      hrequesting₁ h
  have hrun := hrun₁.trans hrun₂
  refine ⟨s, reachable_called.trans (Relation.ReflTransGen.mono
    (fun _ _ ⟨actor, _, hstep⟩ => ⟨actor, trivial, hstep⟩) _ _ hrun), hrunning, hrequesting,
    hreturning, hserver, htraces, hrest, Follow.requests_eq hrun⟩

/-- What was called for can be answered, also later. -/
theorem answerable_of_requests_eq {s : State wireFormat}
    (h : ∀ k, (s.connections k).requests = (called.connections k).requests) : s.Answerable :=
  fun k request hrequest => answerable_called k request (h k ▸ hrequest)

/-- What a client has asked for stays what it has asked for. -/
theorem askedBy_eq {s s' : State P}
    (h : ∀ k, (s'.connections k).requests = (s.connections k).requests) (n : Nat) :
    s'.askedBy C n = s.askedBy C n :=
  Finset.sum_congr rfl (fun k _ => by rw [h])

/-- What the first client has been handed a result for, once the first reply has
been sent. -/
theorem answeredTo_first {s : State wireFormat} (h : Inv Pipeline.oneEach twoClients s)
    (hreturning : s.returning = 0) (hrest : (s.connections 0).AtRest)
    (hanswers : s.server.answers Pipeline.oneEach
      = {(ascii "a", replyBytes wireFormat (makeResult (ascii "z")))}) :
    s.answeredTo twoClients 0 = {ascii "z"} := by
  have hreply : Multiset.Rel (IsReplyTo wireFormat)
      {⟨ascii "z", ascii "a", [.dropStore ⟨⟨ascii "u"⟩⟩]⟩}
      {(ascii "a", replyBytes wireFormat (makeResult (ascii "z")))} :=
    .cons ⟨rfl, _, rfl, rfl⟩ .zero
  have hfilter : (s.server.answers Pipeline.oneEach).filter
      (fun reply => reply.1 = twoClients.identity 0)
        = {(ascii "a", replyBytes wireFormat (makeResult (ascii "z")))} := by
    rw [hanswers]
    exact Multiset.filter_eq_self.mpr (fun reply hr => by
      rw [Multiset.mem_singleton.mp hr]
      rfl)
  rw [← hfilter, ← h.results_eq Nat.two_pos hreturning hrest] at hreply
  exact (Finset.sum_singleton _ 0).trans (transactionIDs_eq hreply).symm

/-! ## What the clients are handed -/

/-- **No client is handed more than it has asked for.** In every state that
clients and server reach, whatever NDB has answered, if the clients send what
can be answered, the delegate of a client has been handed results, and no
null pointers, and these for transactions the client has asked for, each as
often as it has asked for it at most. -/
theorem answeredTo_le_askedBy (h : Reachable P T C s) (hanswerable : s.Answerable) :
    (∀ k, none ∉ (s.connections k).responses.flatten)
      ∧ ∀ n, s.answeredTo C n ≤ s.askedBy C n := by
  refine ⟨fun k => ?_, fun n => Finset.sum_le_sum (fun k hk => ?_)⟩
  · rw [((h.inv.connection k).account).1]
    simp
  · exact h.inv.account_le (lt_of_mem_owned hk) hanswerable

/-- Two transactions have been called back, and one of the three replies has come
to its client. -/
theorem answeredTo_le_askedBy_first :
    ∃ s, Reachable wireFormat Pipeline.oneEach twoClients s
      ∧ (calledBack (s.traces 0)).length = 2
      ∧ s.answeredTo twoClients 0 = {ascii "z"} ∧ s.askedBy twoClients 0 = {ascii "x", ascii "z"}
      ∧ ∀ n, s.answeredTo twoClients n ≤ s.askedBy twoClients n := by
  obtain ⟨executor, handed, pushed, -, hwatched⟩ := Pipeline.watched_forwarding
  have hfirst := hwatched.definerStep (.forward rfl rfl)
  obtain ⟨s, hs, -, -, hreturning, hserver, htraces, hrest, hrequests⟩ := exists_served hfirst
  refine ⟨s, hs, ?_, answeredTo_first hs.inv hreturning (hrest 0 ⟨Nat.two_pos, rfl⟩) ?_,
    (askedBy_eq hrequests 0).trans (askedBy_called 0),
    (answeredTo_le_askedBy hs (answerable_of_requests_eq hrequests)).2⟩
  · rw [htraces]
    rfl
  · rw [hserver]
    rfl

/-- **A client is handed all it has asked for.** Once nothing is on its way
any more – not on the network, not in the server, not on the connections of
the client – its delegate has been handed one result for each of its
transactions. -/
theorem answeredTo_eq_askedBy (h : Reachable P T C s)
    (hndb : ∀ e, completingContract.Admitted .empty (s.traces e)) (hanswerable : s.Answerable)
    (hquiescent : Quiescent s) {n : Nat}
    (hrest : ∀ k < C.noConnections, C.owner k = n → (s.connections k).AtRest) :
    s.answeredTo C n = s.askedBy C n :=
  h.inv.answeredTo_eq hndb hanswerable hquiescent hrest

/-- Two transactions have been called back, a store was dropped, and both clients
have been told so. -/
theorem answeredTo_eq_askedBy_twoClients :
    ∃ s, Reachable wireFormat Pipeline.oneEach twoClients s
      ∧ (calledBack (s.traces 0)).length = 2
      ∧ s.answeredTo twoClients 0 = {ascii "x", ascii "z"}
      ∧ s.answeredTo twoClients 1 = {ascii "y"} := by
  obtain ⟨definer, executor, handed, pushed, -, -, hwatched, hquiescent⟩ :=
    Pipeline.watched_quiescent
  obtain ⟨s, hs, -, hrequesting, hreturning, hserver, htraces, hrest, hrequests⟩ :=
    exists_served hwatched
  have hndb : ∀ e, completingContract.Admitted .empty (s.traces e) := fun e => by
    rw [htraces]
    exact (Pipeline.admitted_threeRun_done e).of_restrict
  have hdone : Quiescent s := ⟨hrequesting, hreturning, hserver ▸ hquiescent⟩
  have hanswered : ∀ n, s.answeredTo twoClients n = called.askedBy twoClients n := fun n =>
    (answeredTo_eq_askedBy hs hndb (answerable_of_requests_eq hrequests) hdone
      (fun k hk _ => hrest k ⟨hk, rfl⟩)).trans (askedBy_eq hrequests n)
  refine ⟨s, hs, ?_, (hanswered 0).trans (askedBy_called 0),
    (hanswered 1).trans (askedBy_called 1)⟩
  rw [htraces]
  rfl

/-- **Everything that was asked for can be answered.** From every state that
clients and server reach without a worker leaving its loop, and without any
further call, they can come to one in which every client with worker threads
has been handed one result for each transaction it had asked for – whatever
NDB answers among the things it may, as long as it always answers one, and
what is read has known types. -/
theorem everything_answered {p : Ledger → (c : Call) → Answer c → Prop}
    (hlive : (completingContract.restrict p).Live)
    (hknown : ∀ s c r, p s c r → ShowsKnown ⟨c, r⟩) (h : Reachable P T C s)
    (hndb : ∀ e, (completingContract.restrict p).Admitted .empty (s.traces e))
    (hanswerable : s.Answerable) (hrunning : s.Running C) :
    ∃ y, Follow P T C Actor.IsInternal s y
      ∧ (∀ e, (completingContract.restrict p).Admitted .empty (y.traces e))
      ∧ Quiescent y
      ∧ ∀ n, 0 < C.totalWorkerThreads n → y.answeredTo C n = s.askedBy C n := by
  obtain ⟨y, hrun, hadmitted, hquiescent, hrest⟩ :=
    Follow.quiesces hlive hknown h.inv hndb hanswerable hrunning
  have hrequests := Follow.requests_eq hrun
  refine ⟨y, hrun, hadmitted, hquiescent, fun n hn => ?_⟩
  rw [← askedBy_eq hrequests]
  refine (Follow.inv hrun h.inv).answeredTo_eq (fun e => (hadmitted e).of_restrict)
    (fun k request hrequest => hanswerable k request (hrequests k ▸ hrequest)) hquiescent
    (fun k hk howner => hrest k (hasWorker_of_owner hn hk howner))

/-- From where two transactions have been prepared and one of them has been called
back, both clients can be told of all they have asked for. -/
theorem everything_answered_twoClients :
    ∃ s y, Reachable wireFormat Pipeline.oneEach twoClients s
      ∧ (prepared (s.traces 0)).length = 2 ∧ (calledBack (s.traces 0)).length = 1
      ∧ Follow wireFormat Pipeline.oneEach twoClients Actor.IsInternal s y
      ∧ y.answeredTo twoClients 0 = {ascii "x", ascii "z"}
      ∧ y.answeredTo twoClients 1 = {ascii "y"} := by
  obtain ⟨left, handed, pushed, progress, hwatched⟩ := Pipeline.exists_watched_take 24
  obtain ⟨s, hs, hrunning, -, -, -, htraces, -, hrequests⟩ := exists_served hwatched
  have hndb : ∀ e, showingContract.Admitted .empty (s.traces e) := fun e => by
    rw [htraces]
    exact Pipeline.admitted_threeRun 24 e
  obtain ⟨y, hrun, -, -, hanswered⟩ :=
    everything_answered showingContract_live (fun _ _ _ hknown => hknown) hs hndb
      (answerable_of_requests_eq hrequests) hrunning
  have hall : ∀ n, y.answeredTo twoClients n = called.askedBy twoClients n := fun n =>
    (hanswered n Nat.one_pos).trans (askedBy_eq hrequests n)
  refine ⟨s, y, hs, ?_, ?_, hrun, (hall 0).trans (askedBy_called 0),
    (hall 1).trans (askedBy_called 1)⟩
  · rw [htraces]
    rfl
  · rw [htraces]
    rfl

end Deployment

end VoloDB
