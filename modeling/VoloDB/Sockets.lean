import VoloDB.Pairing

/-!
# Draining a socket that can fail

Both ends of the connection read a socket by draining it: they take
messages off it until there is none left, and then pass on what they have
taken in one go – the client to its delegate or to another socket, the
server to its caller. `errno` says why there is none left. `EAGAIN` means
that there is nothing to receive; on any other value the `recv` of the C++
binding does not return at all, but throws.

The messages taken are in a local list at that moment, and an exception
takes them with it. So a drain passes on what it takes off its socket if it
ends in `EAGAIN` or, on the server, at the limit, and loses everything it
took if it does not (`drains_passOn_iff`).
-/

namespace VoloDB

/-- `EAGAIN`: there is nothing to receive. -/
def EAGAIN : Int := 11

/-- **A socket, by what it has to give**: messages, and the `errno` of the
`recv` that finds no further one. -/
structure Socket where
  queue : List Bytes
  ending : Int
deriving DecidableEq

/-- A `recv` that finds no message, by the `errno` of the library: the C++
binding returns false on `EAGAIN` and throws on any other. -/
def recvNone (ending : Int) : Except Int Bool :=
  if ending = EAGAIN then .ok false else .error ending

/-! ## The drain of the server -/

namespace TransportUtils

/-- What is thrown out of a drain. -/
inductive Thrown where
  /-- `zmq::error_t`, by its `errno`. -/
  | error (errno : Int)
  /-- `runtime_error`, by its text. -/
  | runtimeError (what : Bytes)
deriving DecidableEq

/-- The loop of `TransportUtils::receiveQueuedMessages`: what it returns or
throws, and the queue it leaves. -/
def receiveLoop (readLimit : Int) (ending : Int) :
    List Bytes → List Bytes → Except Thrown (List Bytes) × List Bytes
  | message :: queue, receivedMessages => -- `recv` returns true
    if 0 < readLimit ∧ ((receivedMessages ++ [message]).length : Int) = readLimit then
      (.ok (receivedMessages ++ [message]), queue)
    else receiveLoop readLimit ending queue (receivedMessages ++ [message])
  | [], receivedMessages =>
    match recvNone ending with
    | .error errno => (.error (.error errno), [])
    | .ok _ =>
      if ending ≠ EAGAIN then
        (.error (.runtimeError (ascii "Error while receiving messages from socket")), [])
      else (.ok receivedMessages, [])

/-- **`TransportUtils::receiveQueuedMessages`.** -/
def receiveQueuedMessages (socket : Socket) (readLimit : Int) :
    Except Thrown (List Bytes) × List Bytes :=
  receiveLoop readLimit socket.ending socket.queue []

theorem receiveLoop_nil (readLimit ending : Int) (received : List Bytes) :
    receiveLoop readLimit ending [] received
      = (if ending = EAGAIN then .ok received else .error (.error ending), []) := by
  by_cases h : ending = EAGAIN <;> simp [receiveLoop, recvNone, h]

/-- A drain that does not come to its limit takes everything, and returns
it only if it ends in `EAGAIN`. -/
theorem receiveLoop_all {readLimit : Int} (ending : Int) (queue received : List Bytes)
    (h : ¬ (0 < readLimit ∧ (received.length : Int) < readLimit
      ∧ readLimit ≤ received.length + queue.length)) :
    receiveLoop readLimit ending queue received
      = (if ending = EAGAIN then .ok (received ++ queue) else .error (.error ending), []) := by
  induction queue generalizing received with
  | nil => rw [receiveLoop_nil, List.append_nil]
  | cons message queue ih =>
    have hlen : (received ++ [message]).length = received.length + 1 := by simp
    rw [List.length_cons] at h
    rw [receiveLoop, if_neg (by omega), ih (received ++ [message]) (by omega),
      List.append_assoc, List.singleton_append]

/-- A drain that comes to its limit returns what it has taken, whatever the
socket would have ended with. -/
theorem receiveLoop_limit {readLimit : Nat} (ending : Int) (queue received : List Bytes)
    (hlt : received.length < readLimit)
    (hle : readLimit ≤ received.length + queue.length) :
    receiveLoop readLimit ending queue received
      = (.ok (received ++ queue.take (readLimit - received.length)),
          queue.drop (readLimit - received.length)) := by
  induction queue generalizing received with
  | nil => exact absurd hle (by rw [List.length_nil]; omega)
  | cons message queue ih =>
    have hlen : (received ++ [message]).length = received.length + 1 := by simp
    rw [List.length_cons] at hle
    rw [receiveLoop]
    by_cases hl : received.length + 1 = readLimit
    · rw [if_pos (by omega), show readLimit - received.length = 1 by omega]
      rfl
    · rw [if_neg (by omega), ih (received ++ [message]) (by omega) (by omega), hlen,
        show readLimit - received.length = readLimit - (received.length + 1) + 1 by omega,
        List.take_succ_cons, List.drop_succ_cons, List.append_assoc,
        List.singleton_append]

theorem receives_receiveLoop (readLimit : Int) (queue received : List Bytes) :
    ∃ taken left, receiveLoop readLimit EAGAIN queue received = (.ok (received ++ taken), left)
      ∧ Receives readLimit received.length queue [] taken left := by
  induction queue generalizing received with
  | nil =>
    refine ⟨[], [], ?_, .again _⟩
    rw [receiveLoop_nil, if_pos rfl, List.append_nil]
  | cons message queue ih =>
    have hlen : (received ++ [message]).length = received.length + 1 := by simp
    rw [receiveLoop, hlen]
    by_cases h : 0 < readLimit ∧ (received.length : Int) + 1 = readLimit
    · exact ⟨[message], queue, if_pos (by omega), .full h⟩
    · obtain ⟨taken, left, heq, hr⟩ := ih (received ++ [message])
      rw [hlen] at hr
      refine ⟨message :: taken, left, ?_, .recv h hr⟩
      rw [if_neg (by omega), heq, List.append_assoc, List.singleton_append]

/-- **A drain of a socket that does not fail** is one in which nothing
comes in while the socket is read. -/
theorem receives_receiveQueuedMessages (readLimit : Int) (queue : List Bytes) :
    ∃ taken left, receiveQueuedMessages ⟨queue, EAGAIN⟩ readLimit = (.ok taken, left)
      ∧ Receives readLimit 0 queue [] taken left :=
  receives_receiveLoop readLimit queue []

/-- What `receiveQueuedMessages` returned, where it did. -/
def returned : Except Thrown (List Bytes) × List Bytes → List Bytes
  | (.ok receivedMessages, _) => receivedMessages
  | (.error _, _) => []

/-- **The server passes on what it takes off a socket**: what is returned
and what is left are what was there, and no more is returned than the
limit allows. -/
def PassesOn (socket : Socket) (readLimit : Int) : Prop :=
  returned (receiveQueuedMessages socket readLimit)
      ++ (receiveQueuedMessages socket readLimit).2 = socket.queue
    ∧ (0 < readLimit →
        ((returned (receiveQueuedMessages socket readLimit)).length : Int) ≤ readLimit)

instance (socket : Socket) (readLimit : Int) : Decidable (PassesOn socket readLimit) :=
  inferInstanceAs (Decidable (_ ∧ _))

theorem passesOn_iff (socket : Socket) (readLimit : Int) :
    PassesOn socket readLimit
      ↔ socket.queue = [] ∨ socket.ending = EAGAIN
        ∨ (0 < readLimit ∧ readLimit ≤ socket.queue.length) := by
  obtain ⟨queue, ending⟩ := socket
  unfold PassesOn receiveQueuedMessages
  by_cases hl : 0 < readLimit ∧ readLimit ≤ queue.length
  · -- the drain ends at the limit
    obtain ⟨n, rfl⟩ := Int.eq_ofNat_of_zero_le hl.1.le
    have hn : receiveLoop n ending queue [] = (.ok (queue.take n), queue.drop n) :=
      receiveLoop_limit ending queue [] (by simp; omega) (by simp; omega)
    rw [hn]
    refine ⟨fun _ => .inr (.inr hl), fun _ => ⟨List.take_append_drop n queue, fun _ => ?_⟩⟩
    exact Int.ofNat_le.mpr (List.length_take_le n queue)
  · rw [receiveLoop_all ending queue [] (by simp; omega), List.nil_append]
    by_cases he : ending = EAGAIN
    · rw [if_pos he]
      refine ⟨fun _ => .inr (.inl he), fun _ => ⟨List.append_nil queue, fun h => ?_⟩⟩
      show (queue.length : Int) ≤ readLimit
      omega
    · rw [if_neg he]
      refine ⟨fun h => .inl h.1.symm, ?_⟩
      rintro (h | h | h)
      · exact ⟨h.symm, fun h' => h'.le⟩
      · exact absurd h he
      · exact absurd h hl

end TransportUtils

/-! ## The drain of the client -/

/-- **A socket to send on**, by the number of messages it takes before a
`send` throws, and the `errno` of that `send`; or `none` where none does. -/
structure SendSocket where
  room : Option (Nat × Int)
deriving DecidableEq

namespace SendSocket

/-- `zmq::socket_t::send` of a message. -/
def send : SendSocket → Except Int SendSocket
  | ⟨none⟩ => .ok ⟨none⟩
  | ⟨some (0, errno)⟩ => .error errno
  | ⟨some (n + 1, errno)⟩ => .ok ⟨some (n, errno)⟩

/-- The socket takes `n` messages. -/
def Takes (socket : SendSocket) (n : Nat) : Prop :=
  ∀ r ∈ socket.room, n ≤ r.1

instance (socket : SendSocket) (n : Nat) : Decidable (socket.Takes n) :=
  inferInstanceAs (Decidable (∀ r ∈ socket.room, n ≤ r.1))

end SendSocket

namespace ClientTransport

/-- What passing messages on comes to. -/
structure Passed where
  /-- The messages sent on the forward socket. -/
  forwarded : List Bytes
  /-- The calls of `didReceiveMessage`. -/
  delivered : List (List Bytes)
  /-- The `errno` of an exception. -/
  thrown : Option Int
deriving DecidableEq

/-- The loop that forwards the messages. -/
def forwardLoop : SendSocket → List Bytes → Passed
  | _, [] => ⟨[], [], none⟩
  | socket, message :: messages =>
    match socket.send with
    | .error errno => ⟨[], [], some errno⟩
    | .ok socket =>
      let passed := forwardLoop socket messages
      { passed with forwarded := message :: passed.forwarded }

/-- Where `receiveQueuedMessages` passes messages on to: the forward
socket, where it was given one, or else the delegate, where there is
one. -/
def passOn (forwardSocket : Option SendSocket) (delegate : Bool)
    (receivedMessages : List Bytes) : Passed :=
  if receivedMessages.length > 0 then
    match forwardSocket with
    | some socket => forwardLoop socket receivedMessages
    | none => ⟨[], if delegate then [receivedMessages] else [], none⟩
  else ⟨[], [], none⟩

/-- A drain of the client: what it passed on, what it returned or threw,
and the queue it left. -/
structure Drain where
  passed : Passed
  outcome : Except Int Bool
  left : List Bytes
deriving DecidableEq

/-- The loop of `ClientTransport::receiveQueuedMessages`. The value `errno`
is what sends and callbacks leave behind; it is read in the place of the
one of `recv` where something was passed on. -/
def receiveLoop (forwardSocket : Option SendSocket) (delegate : Bool) (errno ending : Int) :
    List Bytes → List Bytes → Drain
  | message :: queue, receivedMessages => -- `recv` returns true
    receiveLoop forwardSocket delegate errno ending queue (receivedMessages ++ [message])
  | [], receivedMessages =>
    match recvNone ending with
    | .error thrown => ⟨⟨[], [], none⟩, .error thrown, []⟩
    | .ok _ =>
      let passed := passOn forwardSocket delegate receivedMessages
      match passed.thrown with
      | some thrown => ⟨passed, .error thrown, []⟩
      | none =>
        let zmqErrno :=
          if receivedMessages.length > 0 ∧ (forwardSocket.isSome = true ∨ delegate = true) then
            errno
          else ending
        ⟨passed, .ok (decide (zmqErrno = EAGAIN)), []⟩

/-- **`ClientTransport::receiveQueuedMessages`.** -/
def receiveQueuedMessages (socket : Socket) (forwardSocket : Option SendSocket)
    (delegate : Bool) (errno : Int) : Drain :=
  receiveLoop forwardSocket delegate errno socket.ending socket.queue []

theorem receiveLoop_eq (forwardSocket : Option SendSocket) (delegate : Bool)
    (errno ending : Int) (queue received : List Bytes) :
    receiveLoop forwardSocket delegate errno ending queue received
      = receiveLoop forwardSocket delegate errno ending [] (received ++ queue) := by
  induction queue generalizing received with
  | nil => rw [List.append_nil]
  | cons message queue ih =>
    rw [receiveLoop, ih, List.append_assoc, List.singleton_append]

/-- The loop turns on the whole queue before it passes anything on. -/
theorem receiveQueuedMessages_eq (socket : Socket) (forwardSocket : Option SendSocket)
    (delegate : Bool) (errno : Int) :
    receiveQueuedMessages socket forwardSocket delegate errno
      = receiveLoop forwardSocket delegate errno socket.ending [] socket.queue :=
  receiveLoop_eq forwardSocket delegate errno socket.ending socket.queue []

/-- A drain that ends in an error throws, and has passed nothing on. -/
theorem receiveQueuedMessages_of_error {socket : Socket} (h : socket.ending ≠ EAGAIN)
    (forwardSocket : Option SendSocket) (delegate : Bool) (errno : Int) :
    receiveQueuedMessages socket forwardSocket delegate errno
      = ⟨⟨[], [], none⟩, .error socket.ending, []⟩ := by
  rw [receiveQueuedMessages_eq, receiveLoop, recvNone, if_neg h]

/-- Any other drain passes on everything there was. -/
theorem passed_of_again {socket : Socket} (h : socket.ending = EAGAIN)
    (forwardSocket : Option SendSocket) (delegate : Bool) (errno : Int) :
    (receiveQueuedMessages socket forwardSocket delegate errno).passed
      = passOn forwardSocket delegate socket.queue := by
  rw [receiveQueuedMessages_eq, receiveLoop, recvNone, if_pos h]
  dsimp only
  cases (passOn forwardSocket delegate socket.queue).thrown <;> rfl

theorem left_receiveQueuedMessages (socket : Socket) (forwardSocket : Option SendSocket)
    (delegate : Bool) (errno : Int) :
    (receiveQueuedMessages socket forwardSocket delegate errno).left = [] := by
  rw [receiveQueuedMessages_eq, receiveLoop]
  dsimp only
  cases recvNone socket.ending with
  | error thrown => rfl
  | ok _ => cases (passOn forwardSocket delegate socket.queue).thrown <;> rfl

theorem delivered_forwardLoop (socket : SendSocket) (messages : List Bytes) :
    (forwardLoop socket messages).delivered = [] := by
  induction messages generalizing socket with
  | nil => rfl
  | cons message messages ih =>
    rw [forwardLoop]
    cases socket.send with
    | error errno => rfl
    | ok socket => exact ih socket

/-- Everything is forwarded, and nothing thrown, exactly where the socket
takes as many messages. -/
theorem forwardLoop_iff (socket : SendSocket) (messages : List Bytes) :
    ((forwardLoop socket messages).forwarded = messages ↔ socket.Takes messages.length)
      ∧ ((forwardLoop socket messages).thrown = none ↔ socket.Takes messages.length) := by
  induction messages generalizing socket with
  | nil => simp [forwardLoop, SendSocket.Takes]
  | cons message messages ih =>
    obtain ⟨_ | ⟨_ | n, errno⟩⟩ := socket
    · simpa [forwardLoop, SendSocket.send, SendSocket.Takes] using ih ⟨none⟩
    · simp [forwardLoop, SendSocket.send, SendSocket.Takes]
    · simpa [forwardLoop, SendSocket.send, SendSocket.Takes] using ih ⟨some (n, errno)⟩

/-- There is somebody to pass `n` messages on to. -/
def HasReceiver (forwardSocket : Option SendSocket) (delegate : Bool) (n : Nat) : Prop :=
  match forwardSocket with
  | some socket => socket.Takes n
  | none => delegate = true

instance (forwardSocket : Option SendSocket) (delegate : Bool) (n : Nat) :
    Decidable (HasReceiver forwardSocket delegate n) :=
  match forwardSocket with
  | some socket => inferInstanceAs (Decidable (socket.Takes n))
  | none => inferInstanceAs (Decidable (delegate = true))

/-- What was passed on, in its order. -/
def Passed.messages (passed : Passed) : List Bytes :=
  passed.forwarded ++ passed.delivered.flatten

theorem messages_passOn_iff (forwardSocket : Option SendSocket) (delegate : Bool)
    (messages : List Bytes) :
    (passOn forwardSocket delegate messages).messages = messages
      ↔ messages = [] ∨ HasReceiver forwardSocket delegate messages.length := by
  by_cases hne : messages = []
  · rw [hne]
    simp [passOn, Passed.messages]
  · unfold passOn
    rw [if_pos (List.length_pos_iff.mpr hne), or_iff_right hne]
    cases forwardSocket with
    | some socket =>
      show (forwardLoop socket messages).forwarded
        ++ (forwardLoop socket messages).delivered.flatten = messages ↔ _
      rw [delivered_forwardLoop, List.flatten_nil, List.append_nil]
      exact (forwardLoop_iff socket messages).1
    | none =>
      cases delegate <;> simp [Passed.messages, HasReceiver, Ne.symm hne]

/-- **The client passes on what it takes off a socket**: what is forwarded
or delivered and what is left are what was there. -/
def PassesOn (socket : Socket) (forwardSocket : Option SendSocket) (delegate : Bool)
    (errno : Int) : Prop :=
  (receiveQueuedMessages socket forwardSocket delegate errno).passed.messages
      ++ (receiveQueuedMessages socket forwardSocket delegate errno).left
    = socket.queue

instance (socket : Socket) (forwardSocket : Option SendSocket) (delegate : Bool)
    (errno : Int) : Decidable (PassesOn socket forwardSocket delegate errno) :=
  inferInstanceAs (Decidable (_ = _))

theorem passesOn_iff (socket : Socket) (forwardSocket : Option SendSocket)
    (delegate : Bool) (errno : Int) :
    PassesOn socket forwardSocket delegate errno
      ↔ socket.queue = [] ∨ (socket.ending = EAGAIN
        ∧ HasReceiver forwardSocket delegate socket.queue.length) := by
  rw [PassesOn, left_receiveQueuedMessages, List.append_nil]
  by_cases h : socket.ending = EAGAIN
  · rw [passed_of_again h, messages_passOn_iff, and_iff_right h]
  · rw [receiveQueuedMessages_of_error h]
    exact ⟨fun h' => .inl h'.symm, fun h' => (h'.resolve_right (fun h' => h h'.1)).symm⟩

end ClientTransport

/-! ## Both ends -/

/-- **A drain passes on what it takes off its socket exactly where nothing
goes wrong after the first message**: on the server where the socket ends
in `EAGAIN` or the limit is reached before it ends, on the client where it
ends in `EAGAIN` and there is somebody to pass the messages on to. -/
theorem drains_passOn_iff (socket : Socket) :
    (∀ readLimit, TransportUtils.PassesOn socket readLimit
        ↔ socket.queue = [] ∨ socket.ending = EAGAIN
          ∨ (0 < readLimit ∧ readLimit ≤ socket.queue.length))
      ∧ ∀ forwardSocket delegate errno,
          ClientTransport.PassesOn socket forwardSocket delegate errno
            ↔ socket.queue = [] ∨ (socket.ending = EAGAIN
              ∧ ClientTransport.HasReceiver forwardSocket delegate socket.queue.length) :=
  ⟨TransportUtils.passesOn_iff socket, ClientTransport.passesOn_iff socket⟩

/-- One message and then `ETERM`, the error of a socket whose context is
going away: the message is gone at either end. -/
theorem not_passesOn_error :
    ¬ TransportUtils.PassesOn ⟨[ascii "a"], 156384765⟩ (-1)
      ∧ ¬ ClientTransport.PassesOn ⟨[ascii "a"], 156384765⟩ none true EAGAIN := by
  decide

end VoloDB
