import VoloDB.Sockets

/-!
# The transport of the client

A `ClientTransport` with worker threads leaves receiving to them: a worker
drains its own socket to the delegate and the sink, which holds what the
client wants sent, to its own socket, until it is stopped or a socket
fails. Without worker threads the client receives for itself, one message
at a time.

The worker keeps one flag, which the second drain of a turn overwrites. A
failure of either drain is an exception and leaves the loop all the same;
what the flag adds is `errno`, read after the sends of the second drain and
not after the `recv` that failed. An exception of the delegate is caught
where those of the sockets are, behind the loop. So the worker leaves its
loop where it should, unless a turn forwards messages and the sends leave
another value in `errno`, or the delegate is handed messages and throws
(`workerThreadFunc_iff`).

Receiving without worker threads never works (`receive_never`): the address
of the shared pointer is handed to the overload of `recv` that takes a
buffer, and the flags become its length.
-/

namespace VoloDB

namespace ClientTransport

/-! ## Sending -/

/-- Where a message is sent: on the socket of a client without worker
threads, or to the sinks of the workers, of which one gets it. -/
inductive Outlet where
  | clientSocket
  | sendPushSocket
deriving DecidableEq

/-- **`ClientTransport::send`**: where it sends a message, or the exception
it throws. -/
def send (isConnected : Bool) (totalWorkerThreads : Nat) : Except Bytes Outlet :=
  if isConnected then
    .ok (if totalWorkerThreads = 0 then .clientSocket else .sendPushSocket)
  else .error (ascii "Not connected to the server")

/-! ## The worker thread -/

/-- What a callback of the delegate does. -/
inductive Callback where
  /-- It returns, and leaves this `errno`. -/
  | returns (errno : Int)
  | throws
deriving DecidableEq

/-- **What a turn of the worker's loop meets.** -/
structure Turn where
  stopFlag : Bool
  clientSocket : Socket
  /-- The callback of the delegate, if it is called. -/
  callback : Callback
  sinkSocket : Socket
  /-- The client socket, as the messages of the sink are sent on it. -/
  sends : SendSocket
  /-- The `errno` these sends leave. -/
  sendErrno : Int

/-- The drain of the client socket: the value it returns, or `none` where it
throws, by itself or because the delegate does. -/
def drainClientSocket (delegate : Bool) (t : Turn) : Option Bool :=
  match t.callback with
  | .returns errno => (receiveQueuedMessages t.clientSocket none delegate errno).outcome.toOption
  | .throws => -- where nothing is delivered, the `errno` is not that of a callback
    let drain := receiveQueuedMessages t.clientSocket none delegate t.clientSocket.ending
    if drain.passed.delivered = [] then drain.outcome.toOption else none

/-- A turn of the loop: the value it leaves in `isSocketValid`, or `none`
where it leaves the loop, with `break` or an exception. -/
def turn (delegate : Bool) (t : Turn) : Option Bool :=
  if t.stopFlag then none
  else
    match drainClientSocket delegate t with
    | none => none
    | some _ => -- overwritten below
      match (receiveQueuedMessages t.sinkSocket (some t.sends) delegate t.sendErrno).outcome with
      | .error _ => none
      | .ok isSocketValid => some isSocketValid

/-- The loop, from turn `i` on. -/
def workerLoop (delegate : Bool) : Nat → List Turn → Option Nat
  | _, [] => none
  | i, t :: turns =>
    match turn delegate t with
    | none => some i
    | some isSocketValid =>
      if isSocketValid then workerLoop delegate (i + 1) turns else some i

/-- **`ClientTransport::worker_thread_func`**: the turn in which the worker
leaves its loop, if it leaves it in one of these. -/
def workerThreadFunc (delegate : Bool) (turns : List Turn) : Option Nat :=
  workerLoop delegate 0 turns

/-- A drain ends with an error other than `EAGAIN`: of the socket it
drains, or of the one it forwards to. -/
def Fails (socket : Socket) (forwardSocket : Option SendSocket) : Prop :=
  socket.ending ≠ EAGAIN ∨ ∃ s ∈ forwardSocket, ¬ s.Takes socket.queue.length

theorem thrown_passOn (forwardSocket : Option SendSocket) (delegate : Bool)
    (messages : List Bytes) :
    (passOn forwardSocket delegate messages).thrown = none
      ↔ ∀ s ∈ forwardSocket, s.Takes messages.length := by
  cases forwardSocket with
  | none =>
    unfold passOn
    by_cases h : messages.length > 0 <;> simp [h]
  | some socket =>
    cases messages with
    | nil => simp [passOn, SendSocket.Takes]
    | cons message messages =>
      have h := (forwardLoop_iff socket (message :: messages)).2
      simpa [passOn] using h

/-- A drain that fails throws. -/
theorem outcome_of_fails {socket : Socket} {forwardSocket : Option SendSocket}
    (h : Fails socket forwardSocket) (delegate : Bool) (errno : Int) :
    ∃ thrown, (receiveQueuedMessages socket forwardSocket delegate errno).outcome
      = .error thrown := by
  by_cases he : socket.ending = EAGAIN
  · obtain ⟨s, hs, ht⟩ := h.resolve_left (not_not.mpr he)
    have hne : (passOn forwardSocket delegate socket.queue).thrown ≠ none :=
      fun h' => ht ((thrown_passOn forwardSocket delegate socket.queue).mp h' s hs)
    obtain ⟨thrown, hthrown⟩ := Option.ne_none_iff_exists'.mp hne
    refine ⟨thrown, ?_⟩
    rw [receiveQueuedMessages_eq, receiveLoop, recvNone, if_pos he]
    simp only [hthrown]
  · exact ⟨socket.ending, by rw [receiveQueuedMessages_of_error he]⟩

/-- Any other drain returns whether `errno` is `EAGAIN` after it has passed
on what there was, and true where it has passed on nothing. -/
theorem outcome_of_not_fails {socket : Socket} {forwardSocket : Option SendSocket}
    (h : ¬ Fails socket forwardSocket) (delegate : Bool) (errno : Int) :
    (receiveQueuedMessages socket forwardSocket delegate errno).outcome
      = .ok (decide (socket.queue = [] ∨ (forwardSocket = none ∧ delegate = false)
          ∨ errno = EAGAIN)) := by
  unfold Fails at h
  push Not at h
  have hthrown := (thrown_passOn forwardSocket delegate socket.queue).mpr h.2
  rw [receiveQueuedMessages_eq, receiveLoop, recvNone, if_pos h.1]
  simp only [hthrown, h.1]
  cases socket.queue <;> cases forwardSocket <;> cases delegate <;> simp

/-- **A turn in which the worker is to leave its loop**: it has been
stopped, or the drain of either socket ends with an error. -/
def Ends (t : Turn) : Prop :=
  t.stopFlag = true ∨ Fails t.clientSocket none ∨ Fails t.sinkSocket (some t.sends)

/-- **A turn that disturbs `errno`**: something is forwarded, and the sends
leave a value that is not `EAGAIN`. -/
def Disturbed (t : Turn) : Prop :=
  t.sinkSocket.queue ≠ [] ∧ t.sendErrno ≠ EAGAIN

/-- **A turn in which the delegate throws**: it is handed messages, and its
callback does not return. -/
def Throws (delegate : Bool) (t : Turn) : Prop :=
  delegate = true ∧ t.clientSocket.queue ≠ [] ∧ t.callback = .throws

instance (socket : Socket) (forwardSocket : Option SendSocket) :
    Decidable (Fails socket forwardSocket) :=
  inferInstanceAs (Decidable (_ ∨ ∃ s ∈ forwardSocket, ¬ s.Takes socket.queue.length))

instance (t : Turn) : Decidable (Ends t) := inferInstanceAs (Decidable (_ ∨ _))

instance (t : Turn) : Decidable (Disturbed t) := inferInstanceAs (Decidable (_ ∧ _))

instance (delegate : Bool) (t : Turn) : Decidable (Throws delegate t) :=
  inferInstanceAs (Decidable (_ ∧ _))

/-- **The drain of the client socket throws** where it fails, and where the
delegate throws. -/
theorem drainClientSocket_eq_none_iff (delegate : Bool) (t : Turn) :
    drainClientSocket delegate t = none
      ↔ Fails t.clientSocket none ∨ Throws delegate t := by
  obtain ⟨stopFlag, socket, callback, sinkSocket, sends, sendErrno⟩ := t
  unfold drainClientSocket Throws
  dsimp only
  by_cases hfails : Fails socket none
  · -- a drain that fails has not called the delegate
    have hending : socket.ending ≠ EAGAIN := hfails.resolve_right (fun ⟨_, h, _⟩ => nomatch h)
    cases callback <;> simp [hfails, receiveQueuedMessages_of_error hending, Except.toOption]
  · have hending : socket.ending = EAGAIN := by
      by_contra h
      exact hfails (Or.inl h)
    cases callback with
    | returns errno => simp [hfails, outcome_of_not_fails hfails, Except.toOption]
    | throws =>
      simp only [passed_of_again hending, outcome_of_not_fails hfails, Except.toOption]
      unfold passOn
      cases socket.queue <;> cases delegate <;> simp [hfails]

/-- **What a turn does**: the worker goes on unless the turn ends its loop
or disturbs `errno`, or the delegate throws. What the callback leaves in
`errno` is forgotten. -/
theorem turn_eq (delegate : Bool) (t : Turn) :
    turn delegate t = some true ↔ ¬ Ends t ∧ ¬ (Disturbed t ∨ Throws delegate t) := by
  have hdrain := drainClientSocket_eq_none_iff delegate t
  unfold turn Ends Disturbed
  by_cases hs : t.stopFlag = true
  · simp [hs]
  by_cases hc : Fails t.clientSocket none
  · simp [hs, hc, hdrain.mpr (Or.inl hc)]
  by_cases ht : Throws delegate t
  · simp [hs, ht, hdrain.mpr (Or.inr ht)]
  obtain ⟨isSocketValid, hvalid⟩ :=
    Option.ne_none_iff_exists'.mp (fun h => (hdrain.mp h).elim hc ht)
  by_cases hk : Fails t.sinkSocket (some t.sends)
  · obtain ⟨thrown, h⟩ := outcome_of_fails hk delegate t.sendErrno
    simp [hs, hk, h, hvalid]
  · simp only [outcome_of_not_fails hk, hvalid]
    simp [hs, hc, hk, ht, imp_iff_not_or]

/-- **The loop goes on up to the first turn that does not let it.** -/
theorem workerLoop_eq (delegate : Bool) (i : Nat) (turns : List Turn) :
    workerLoop delegate i turns
      = (turns.findIdx? (fun t => turn delegate t ≠ some true)).map (· + i) := by
  induction turns generalizing i with
  | nil => rfl
  | cons t turns ih =>
    rw [workerLoop, List.findIdx?_cons]
    match h : turn delegate t with
    | none => simp
    | some false => simp
    | some true =>
      rw [if_neg (by simp), Option.map_map]
      refine (ih (i + 1)).trans (congrArg (fun f => Option.map f _) (funext fun n => ?_))
      show n + (i + 1) = n + 1 + i
      omega

/-- **The worker leaves its loop in the first turn that ends it exactly
where no turn before disturbs `errno`, and in none the delegate throws.** -/
theorem workerThreadFunc_iff (delegate : Bool) (turns : List Turn) :
    workerThreadFunc delegate turns = turns.findIdx? (fun t => Ends t)
      ↔ ∀ t ∈ turns.takeWhile (fun t => ¬ Ends t),
        ¬ (Disturbed t ∨ Throws delegate t) := by
  have hstart : ∀ l : List Turn, workerThreadFunc delegate l
      = l.findIdx? (fun t => turn delegate t ≠ some true) := by
    intro l
    rw [workerThreadFunc, workerLoop_eq]
    exact Option.map_id'
  rw [hstart]
  induction turns with
  | nil => simp
  | cons t turns ih =>
    rw [List.findIdx?_cons, List.findIdx?_cons]
    by_cases he : Ends t
    · -- the loop ends here on either side
      have ht : turn delegate t ≠ some true := fun h => ((turn_eq delegate t).mp h).1 he
      simp [he, ht]
    · rw [List.takeWhile_cons_of_pos (by simpa using he), List.forall_mem_cons]
      by_cases hd : Disturbed t ∨ Throws delegate t
      · have ht : turn delegate t ≠ some true := fun h => ((turn_eq delegate t).mp h).2 hd
        simp [he, hd, ht]
      · have ht : turn delegate t = some true := (turn_eq delegate t).mpr ⟨he, hd⟩
        refine Iff.trans ?_ (ih.trans (and_iff_right hd).symm)
        simp [he, ht, Option.map_inj_right]

/-- A worker that forwards one message, leaving `EINTR` in `errno`, leaves
its loop while both of its sockets are well; and so does one whose delegate
throws when it is handed a message. -/
theorem workerThreadFunc_disturbed :
    (workerThreadFunc true
          [⟨false, ⟨[], EAGAIN⟩, .returns EAGAIN, ⟨[ascii "a"], EAGAIN⟩, ⟨none⟩, 4⟩]
        ≠ List.findIdx? (fun t => Ends t)
          [⟨false, ⟨[], EAGAIN⟩, .returns EAGAIN, ⟨[ascii "a"], EAGAIN⟩, ⟨none⟩, 4⟩])
      ∧ workerThreadFunc true
          [⟨false, ⟨[ascii "a"], EAGAIN⟩, .throws, ⟨[], EAGAIN⟩, ⟨none⟩, EAGAIN⟩]
        ≠ List.findIdx? (fun t => Ends t)
          [⟨false, ⟨[ascii "a"], EAGAIN⟩, .throws, ⟨[], EAGAIN⟩, ⟨none⟩, EAGAIN⟩] := by
  decide

/-! ## Receiving without worker threads

The two overloads of `recv` are told apart by their first argument, a
`message_t*` or a `void*`. `receive` hands over the address of a shared
pointer, which is the second; what it means as the flags is then the length
of the buffer, and the buffer is the pointer itself. -/

/-- `ZMQ_NOBLOCK`. -/
def ZMQ_NOBLOCK : Nat := 1

/-- A call of `recv` with a buffer. -/
inductive RecvBuffer where
  /-- The bytes copied into the buffer, the size of the message, and the
  socket after it. -/
  | size (copied : Bytes) (nbytes : Nat) (left : Socket)
  /-- The call waits for a message. -/
  | waits
  | thrown (errno : Int)

/-- `zmq::socket_t::recv` into a buffer of `len` bytes, with its default
flags, under which it waits. -/
def recvBuffer (socket : Socket) (len : Nat) : RecvBuffer :=
  match socket.queue with
  | message :: queue =>
    .size (message.take len) message.length { socket with queue := queue }
  | [] => if socket.ending = EAGAIN then .waits else .thrown socket.ending

/-- A call of `receive`. -/
inductive Receive where
  /-- The bytes of the shared pointer returned, or `none` for a null one,
  and the value of `error`. -/
  | returned (message : Option Bytes) (error : Bool) (left : Socket)
  | waits
  /-- `zmq::error_t`. -/
  | thrown (errno : Int)
  /-- `runtime_error`. -/
  | refused (what : Bytes)

/-- **`ClientTransport::receive`.** The shared pointer `message` is `fresh`
as it is made, and `errno` is the value `zmq_errno` has after a `recv` that
did not fail. -/
def receive (totalWorkerThreads : Nat) (fresh : Bytes) (errno : Int) (socket : Socket)
    (doBlock : Bool) : Receive :=
  if totalWorkerThreads = 0 then
    match recvBuffer socket (if doBlock then 0 else ZMQ_NOBLOCK) with
    | .waits => .waits
    | .thrown errno => .thrown errno
    | .size copied nbytes left =>
      let success := nbytes ≠ 0 -- a size, converted to `bool`
      if success then .returned (some (copied ++ fresh.drop copied.length)) false left
      else .returned none (errno ≠ EAGAIN) left
  else .refused (ascii "Receive is only allowed on non multi-threaded client")

/-- The message a shared pointer points to: the one it was made with, which
nothing has been received into, or none that is known once a byte of the
pointer has changed. -/
def pointee (fresh object : Bytes) : Option Bytes :=
  if object = fresh then some [] else none

/-- A call of `receiveAll`: the shared pointers and the value of `error`,
or what comes in the place of a return. -/
inductive ReceiveAll where
  | returned (allMessages : List Bytes) (error : Bool) (left : Socket)
  | waits
  | thrown (errno : Int)
  | refused (what : Bytes)

theorem length_of_receive {totalWorkerThreads : Nat} {fresh : Bytes} {errno : Int}
    {socket : Socket} {doBlock : Bool} {object : Bytes} {error : Bool} {left : Socket}
    (h : receive totalWorkerThreads fresh errno socket doBlock
      = .returned (some object) error left) : left.queue.length < socket.queue.length := by
  obtain ⟨queue, ending⟩ := socket
  unfold receive at h
  split at h
  · cases queue with
    | nil =>
      by_cases he : ending = EAGAIN <;> simp [recvBuffer, he] at h
    | cons message queue =>
      simp only [recvBuffer] at h
      split at h
      · cases h
        exact Nat.lt_succ_self queue.length
      · cases h
  · cases h

/-- The loop of `ClientTransport::receiveAll`, from turn `i` on. -/
def receiveAllLoop (totalWorkerThreads : Nat) (fresh : Nat → Bytes) (errno : Nat → Int)
    (doBlock : Bool) (i : Nat) (socket : Socket) (allMessages : List Bytes) : ReceiveAll :=
  match _h : receive totalWorkerThreads (fresh i) (errno i) socket doBlock with
  | .returned (some currentMessage) _ left =>
    receiveAllLoop totalWorkerThreads fresh errno doBlock (i + 1) left
      (allMessages ++ [currentMessage])
  | .returned none error left => .returned allMessages error left
  | .waits => .waits
  | .thrown errno => .thrown errno
  | .refused what => .refused what
termination_by socket.queue.length
decreasing_by exact length_of_receive _h

/-- **`ClientTransport::receiveAll`.** -/
def receiveAll (totalWorkerThreads : Nat) (fresh : Nat → Bytes) (errno : Nat → Int)
    (socket : Socket) (doBlock : Bool) : ReceiveAll :=
  receiveAllLoop totalWorkerThreads fresh errno doBlock 0 socket []

theorem receive_nil (fresh : Bytes) (errno ending : Int) (doBlock : Bool) :
    receive 0 fresh errno ⟨[], ending⟩ doBlock
      = if ending = EAGAIN then .waits else .thrown ending := by
  by_cases h : ending = EAGAIN <;> simp [receive, recvBuffer, h]

/-- **An empty message is taken for a failure**, and for an error if
`errno` happens not to be `EAGAIN`. -/
theorem receive_empty (fresh : Bytes) (errno : Int) (queue : List Bytes) (ending : Int)
    (doBlock : Bool) :
    receive 0 fresh errno ⟨[] :: queue, ending⟩ doBlock
      = .returned none (errno ≠ EAGAIN) ⟨queue, ending⟩ := by
  simp [receive, recvBuffer]

/-- **Any other message is lost**: what is returned in its place is the
fresh pointer, and where the call is not to block, its first byte is that
of the message. -/
theorem receive_cons (fresh : Bytes) (errno : Int) (b : UInt8) (message : Bytes)
    (queue : List Bytes) (ending : Int) (doBlock : Bool) :
    receive 0 fresh errno ⟨(b :: message) :: queue, ending⟩ doBlock
      = .returned (some (if doBlock then fresh else b :: fresh.drop 1)) false
          ⟨queue, ending⟩ := by
  cases doBlock <;> simp [receive, recvBuffer, ZMQ_NOBLOCK]

/-- With nothing to receive, the loop does not return. -/
theorem receiveAllLoop_nil (fresh : Nat → Bytes) (errno : Nat → Int) (ending : Int)
    (doBlock : Bool) (i : Nat) (all : List Bytes) :
    receiveAllLoop 0 fresh errno doBlock i ⟨[], ending⟩ all
      = if ending = EAGAIN then .waits else .thrown ending := by
  have hr := receive_nil (fresh i) (errno i) ending doBlock
  rw [receiveAllLoop]
  by_cases he : ending = EAGAIN
  · rw [if_pos he] at hr
    rw [if_pos he]
    split <;> simp_all
  · rw [if_neg he] at hr
    rw [if_neg he]
    split <;> simp_all

/-- An empty message ends the loop. -/
theorem receiveAllLoop_empty (fresh : Nat → Bytes) (errno : Nat → Int)
    (queue : List Bytes) (ending : Int) (doBlock : Bool) (i : Nat) (all : List Bytes) :
    receiveAllLoop 0 fresh errno doBlock i ⟨[] :: queue, ending⟩ all
      = .returned all (errno i ≠ EAGAIN) ⟨queue, ending⟩ := by
  have hr := receive_empty (fresh i) (errno i) queue ending doBlock
  rw [receiveAllLoop]
  split <;> simp_all

/-- Only an empty message is ever pointed to. -/
theorem eq_nil_of_pointee {fresh object message : Bytes}
    (h : pointee fresh object = some message) : message = [] := by
  unfold pointee at h
  split at h
  · exact (Option.some.inj h).symm
  · cases h

/-- **`receive` returns the next message** with its bytes, and leaves the
rest queued. -/
def ReturnsNext (fresh : Bytes) (errno : Int) (doBlock : Bool) (message : Bytes)
    (left : Socket) : Prop :=
  ∃ object error,
    receive 0 fresh errno ⟨message :: left.queue, left.ending⟩ doBlock
        = .returned (some object) error left
      ∧ pointee fresh object = some message

/-- **`receiveAll` returns everything there is** without waiting for more,
and an error only where the socket has failed. -/
def ReturnsAll (fresh : Nat → Bytes) (errno : Nat → Int) (socket : Socket) : Prop :=
  ∃ objects error left,
    receiveAll 0 fresh errno socket false = .returned objects error left
      ∧ left.queue = []
      ∧ objects.mapIdx (fun i object => pointee (fresh i) object) = socket.queue.map some
      ∧ (error = true → socket.ending ≠ EAGAIN)

theorem not_returnsNext (fresh : Bytes) (errno : Int) (doBlock : Bool) (message : Bytes)
    (left : Socket) : ¬ ReturnsNext fresh errno doBlock message left := by
  rintro ⟨object, error, h, hp⟩
  -- only an empty message can be pointed to, and that one is not returned
  rw [eq_nil_of_pointee hp, receive_empty] at h
  cases h

theorem not_returnsAll (fresh : Nat → Bytes) (errno : Nat → Int) (socket : Socket) :
    ¬ ReturnsAll fresh errno socket := by
  rintro ⟨objects, error, left, h, -, hp, -⟩
  obtain ⟨queue, ending⟩ := socket
  unfold receiveAll at h
  cases queue with
  | nil =>
    rw [receiveAllLoop_nil] at h
    split at h <;> cases h
  | cons message queue =>
    cases objects with
    | nil => exact absurd hp.symm (List.cons_ne_nil _ _)
    | cons object objects =>
      -- the first pointer would have to point to the first message, which
      -- is then empty and ends the loop before anything is collected
      rw [List.mapIdx_cons, List.map_cons, List.cons.injEq] at hp
      rw [eq_nil_of_pointee hp.1, receiveAllLoop_empty] at h
      cases h

/-- **Receiving without worker threads never works**: of a queue that holds
a message, `receive` never returns it, and of no queue does `receiveAll`
return the messages. -/
theorem receive_never (fresh : Nat → Bytes) (errno : Nat → Int) (doBlock : Bool)
    (message : Bytes) (socket : Socket) :
    ¬ ReturnsNext (fresh 0) (errno 0) doBlock message socket
      ∧ ¬ ReturnsAll fresh errno socket :=
  ⟨not_returnsNext (fresh 0) (errno 0) doBlock message socket,
    not_returnsAll fresh errno socket⟩

/-- One message of one byte: a pointer to it is not what `receive` returns,
and `receiveAll` waits for another message. -/
theorem receive_one :
    ¬ ReturnsNext (ascii "pointer") EAGAIN false (ascii "a") ⟨[], EAGAIN⟩
      ∧ ¬ ReturnsAll (fun _ => ascii "pointer") (fun _ => EAGAIN) ⟨[ascii "a"], EAGAIN⟩ :=
  ⟨not_returnsNext _ _ _ _ _, not_returnsAll _ _ _⟩

end ClientTransport

end VoloDB
