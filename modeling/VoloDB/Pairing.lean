import Mathlib.Data.Set.Finite.Basic
import VoloDB.Frame
import VoloDB.Stride

/-!
# Requests on a worker socket

The router hands a request on as one multipart message: a part with the
**identity** of the client, and after it the parts the client put the
request together from, its **bodies**. A definer drains its worker socket
part by part into one flat list, and `FrameDecoder::decode` pairs the parts
of that list by position – the even ones are identities, the odd ones are
frames.

The positions are what the decoder goes by; nothing in the list says where
a request begins. To say whose bytes a tuple was decoded from, a part is
modelled together with its sender, which no function of the source reads.
A drained batch is **attributed** if the decoder stays inside the list and
gives every tuple the identity of the sender of the frame. This holds for
whatever the bodies contain if and only if every request in the batch has
one body (`attributed_iff`).
-/

namespace VoloDB

open Stride

/-! ## Draining a socket -/

namespace TransportUtils

/-- **A run of `TransportUtils::receiveQueuedMessages`**, after `n` parts
have been received: from the queue, and the multipart messages that come in
while it reads, to the parts it receives and the queue it leaves. A
multipart message comes in with all of its parts. -/
inductive Receives {α : Type} (readLimit : Int) :
    Nat → List α → List (List α) → List α → List α → Prop
  /-- `recv` finds nothing: `EAGAIN`. -/
  | again (n : Nat) : Receives readLimit n [] [] [] []
  /-- The part that reaches the limit. -/
  | full {n : Nat} {part : α} {queue : List α} (h : 0 < readLimit ∧ (n : Int) + 1 = readLimit) :
    Receives readLimit n (part :: queue) [] [part] queue
  /-- Any other part. -/
  | recv {n : Nat} {part : α} {queue left received : List α} {arrivals : List (List α)}
      (h : ¬ (0 < readLimit ∧ (n : Int) + 1 = readLimit))
      (rest : Receives readLimit (n + 1) queue arrivals received left) :
    Receives readLimit n (part :: queue) arrivals (part :: received) left
  /-- A multipart message comes in. -/
  | arrive {n : Nat} {parts queue left received : List α} {arrivals : List (List α)}
      (rest : Receives readLimit n (queue ++ parts) arrivals received left) :
    Receives readLimit n queue (parts :: arrivals) received left

/-- What is received and what is left are what was there and what came in,
in this order. -/
theorem Receives.append_eq {α : Type} {readLimit : Int} {n : Nat}
    {queue left received : List α} {arrivals : List (List α)}
    (h : Receives readLimit n queue arrivals received left) :
    received ++ left = queue ++ arrivals.flatten := by
  induction h with
  | again n => rfl
  | full h => simp
  | recv h rest ih => rw [List.cons_append, ih, List.cons_append]
  | arrive rest ih => rw [ih, List.flatten_cons, List.append_assoc]

/-- Without a limit, the queue is read to its end. -/
theorem Receives.left_eq_nil {α : Type} {readLimit : Int} {n : Nat}
    {queue left received : List α} {arrivals : List (List α)}
    (h : Receives readLimit n queue arrivals received left) (hl : readLimit ≤ 0) :
    left = [] := by
  induction h with
  | again n => rfl
  | full h => exact absurd h.1 (by omega)
  | recv h rest ih => exact ih
  | arrive rest ih => exact ih

end TransportUtils

/-! ## Decoding a batch -/

namespace FrameDecoder

variable (P : Protobuf)

/-- One round of the loop of `decode(messages, containsIdentifier)`, or
nothing where it reads past the end of the list. -/
def decodeAt (messages : List Bytes) (containsIdentifier : Bool) (i : Nat) :
    Option (List FrameMessagesTuple) :=
  if containsIdentifier then
    match messages[i + 1]?, messages[i]? with
    | some message, some identifier => some (decode P message (some identifier))
    | _, _ => none
  else
    match messages[i]? with
    | some message => some (decode P message none)
    | none => none

/-- **`FrameDecoder::decode(messages, containsIdentifier)`.** -/
def decodeMessages (messages : List Bytes) (containsIdentifier : Bool) :
    Option (List FrameMessagesTuple) :=
  let incrementAmount := if containsIdentifier then 2 else 1
  match (indices messages.length incrementAmount).mapM
      (decodeAt P messages containsIdentifier) with
  | some decodedMessages => some decodedMessages.flatten
  | none => none

/-- Of a pair of parts, the first is the identity and the second the
frame. -/
def decodePair (p : Bytes × Bytes) : List FrameMessagesTuple :=
  decode P p.2 (some p.1)

theorem decodeAt_eq_pairAt (messages : List Bytes) :
    decodeAt P messages true = fun i => (pairAt messages i).map (decodePair P) := by
  funext i
  unfold decodeAt pairAt
  rw [if_pos rfl]
  cases messages[i]? <;> cases messages[i + 1]? <;> rfl

theorem mapM_map {α β : Type} (f : Nat → Option α) (g : α → β) (is : List Nat) :
    is.mapM (fun i => (f i).map g) = (is.mapM f).map (List.map g) := by
  induction is with
  | nil => rfl
  | cons i is ih =>
    rw [List.mapM_cons, List.mapM_cons, ih]
    cases f i <;> cases is.mapM f <;> rfl

/-- **With identities, the decoder reads the list as a list of pairs.** -/
theorem decodeMessages_true (messages : List Bytes) :
    decodeMessages P messages true = (pairs messages).map (List.flatMap (decodePair P)) := by
  unfold decodeMessages
  show (match (indices messages.length 2).mapM (decodeAt P messages true) with
    | some decodedMessages => some decodedMessages.flatten
    | none => none) = _
  rw [decodeAt_eq_pairAt, mapM_map]
  show _ = ((indices messages.length 2).mapM (pairAt messages)).map _
  cases (indices messages.length 2).mapM (pairAt messages) with
  | none => rfl
  | some ps => rfl

/-- **Without identities, every part is a frame**, and none is missing. -/
theorem decodeMessages_false (messages : List Bytes) :
    decodeMessages P messages false
      = some (messages.flatMap (fun message => decode P message none)) := by
  have h : (indices messages.length 1).mapM (decodeAt P messages false)
      = some (messages.map (fun message => decode P message none)) := by
    induction messages with
    | nil => rfl
    | cons message messages ih =>
      rw [List.length_cons, indices_add messages.length Nat.one_pos, List.mapM_cons,
        mapM_map_add _ (decodeAt P messages false) _ 1 (fun i => rfl), ih]
      rfl
  unfold decodeMessages
  show (match (indices messages.length 1).mapM (decodeAt P messages false) with
    | some decodedMessages => some decodedMessages.flatten
    | none => none) = _
  rw [h]
  rfl

/-- A batch of pairs is decoded pair by pair. -/
theorem decodeMessages_flat (ps : List (Bytes × Bytes)) :
    decodeMessages P (flat ps) true = some (ps.flatMap (decodePair P)) := by
  rw [decodeMessages_true, pairs_flat, Option.map_some]

/-- An item in a frame of its own. -/
def frameOf (item : FrameItem) : Bytes := P.frame.serialize ⟨none, [item]⟩

theorem decode_frameOf (item : FrameItem) (identifier : Option Bytes) :
    decode P (frameOf P item) identifier = [itemTuple P identifier item] := by
  unfold frameOf
  rw [decode_serialize, decodeFrame_plain, List.map_singleton]

/-- A frame without identifier is decoded as if each of its items had come
in a frame of its own. -/
theorem decode_eq_flatMap_frameOf {body : Bytes} {items : List FrameItem}
    (h : P.frame.parse body = some ⟨none, items⟩) (identifier : Option Bytes) :
    decode P body identifier
      = items.flatMap (fun item => decode P (frameOf P item) identifier) := by
  rw [decode_of_parse P h, decodeFrame_plain, List.map_eq_flatMap]
  simp only [decode_frameOf]

theorem decode_of_not_parse {body : Bytes} (h : P.frame.parse body = none)
    (identifier : Option Bytes) : decode P body identifier = [] := by
  rw [decode, h]

/-- **Bodies and items are decoded apart.** What the decoder makes of a
batch of pairs is what it makes of each body alone, under the identity of
its pair; and what it makes of a frame without identifier is what it makes
of each item alone. Of a body that is no frame it makes nothing, and of an
item it cannot read a tuple without messages, whatever stands beside
them. -/
theorem decodeMessages_apart (ps : List (Bytes × Bytes)) :
    decodeMessages P (flat ps) true
        = some (ps.flatMap (fun p => decode P p.2 (some p.1)))
      ∧ (∀ p ∈ ps, ∀ t ∈ decode P p.2 (some p.1), t.identifier = p.1)
      ∧ (∀ body items identifier, P.frame.parse body = some ⟨none, items⟩ →
          decode P body identifier
            = items.flatMap (fun item => decode P (frameOf P item) identifier))
      ∧ (∀ body identifier, P.frame.parse body = none → decode P body identifier = [])
      ∧ ∀ item identifier, decodeItem P item = none →
          decode P (frameOf P item) identifier = [newTuple identifier] := by
  refine ⟨decodeMessages_flat P ps, fun p _ t ht => identifier_of_mem_decode P ht,
    fun body items identifier h => decode_eq_flatMap_frameOf P h identifier,
    fun body identifier h => decode_of_not_parse P h identifier,
    fun item identifier h => ?_⟩
  rw [decode_frameOf, itemTuple, h]

/-! ## Who sent what -/

/-- A part in the queue of a worker socket, with the client who sent it. -/
structure Part where
  sender : Bytes
  data : Bytes
deriving DecidableEq

/-- **A request as the router hands it on.** -/
structure Request where
  /-- The identity the router gave the client. -/
  identity : Bytes
  /-- What the client sent. -/
  bodies : List Bytes
  /-- A message has at least one part. -/
  bodies_ne_nil : bodies ≠ []

/-- The parts of a request: the identity and the bodies. -/
def Request.parts (r : Request) : List Part :=
  (r.identity :: r.bodies).map (Part.mk r.identity)

/-- **A batch is attributed**: the decoder reads no part past its end, and
every tuple it decodes from a part carries the identity of the sender of
that part. -/
def Attributed (received : List Part) : Prop :=
  (decodeMessages P (received.map Part.data) true).isSome = true
    ∧ ∀ i ∈ indices received.length 2, ∀ part, received[i + 1]? = some part →
        ∀ tuples, decodeAt P (received.map Part.data) true i = some tuples →
          ∀ t ∈ tuples, t.identifier = part.sender

theorem attributed_nil : Attributed P [] :=
  ⟨rfl, fun _ hi => absurd hi List.not_mem_nil⟩

theorem not_attributed_singleton (part : Part) : ¬ Attributed P [part] := by
  intro h
  have h' := h.1
  rw [List.map_singleton, decodeMessages_true, pairs_singleton] at h'
  exact Bool.false_ne_true h'

/-- The first two parts are a pair, and the decoder goes on after them. -/
theorem attributed_cons_cons (a b : Part) (received : List Part) :
    Attributed P (a :: b :: received)
      ↔ (∀ t ∈ decode P b.data (some a.data), t.identifier = b.sender)
        ∧ Attributed P received := by
  have hsome : (decodeMessages P ((a :: b :: received).map Part.data) true).isSome
      = (decodeMessages P (received.map Part.data) true).isSome := by
    rw [List.map_cons, List.map_cons, decodeMessages_true, decodeMessages_true,
      pairs_cons_cons, Option.isSome_map, Option.isSome_map, Option.isSome_map]
  have hindices : indices (a :: b :: received).length 2
      = 0 :: (indices received.length 2).map (· + 2) :=
    indices_add received.length Nat.two_pos
  unfold Attributed
  rw [hsome, hindices, List.forall_mem_cons, List.forall_mem_map]
  constructor
  · rintro ⟨hs, h₀, h⟩
    exact ⟨h₀ b rfl _ rfl, hs, h⟩
  · rintro ⟨h₀, hs, h⟩
    refine ⟨hs, fun part hpart tuples ht => ?_, h⟩
    cases hpart
    cases ht
    exact h₀

/-! ## One body a request -/

/-- Requests with one body each are attributed, whoever sent them and
whatever they contain. -/
theorem attributed_of_one_body {requests : List Request}
    (h : ∀ r ∈ requests, r.bodies.length = 1) :
    Attributed P (requests.flatMap Request.parts) := by
  induction requests with
  | nil => exact attributed_nil P
  | cons r requests ih =>
    obtain ⟨body, hbody⟩ := List.length_eq_one_iff.mp (h r List.mem_cons_self)
    have hparts : (r :: requests).flatMap Request.parts
        = ⟨r.identity, r.identity⟩ :: ⟨r.identity, body⟩
          :: requests.flatMap Request.parts := by
      rw [List.flatMap_cons, Request.parts, hbody]
      rfl
    rw [hparts, attributed_cons_cons]
    exact ⟨fun t ht => identifier_of_mem_decode P ht,
      ih (fun r' hr' => h r' (List.mem_cons_of_mem r hr'))⟩

/-! ## Any other number of bodies -/

/-- Who sent a request, and of how many bodies. -/
def Request.shape (r : Request) : Bytes × Nat := (r.identity, r.bodies.length)

/-- The request with `body` in the place of every body. -/
def Request.fill (body : Bytes) (r : Request) : Request where
  identity := r.identity
  bodies := List.replicate r.bodies.length body
  bodies_ne_nil := by
    have h := r.bodies_ne_nil
    rwa [Ne, List.replicate_eq_nil_iff, List.length_eq_zero_iff]

theorem Request.shape_fill (body : Bytes) (r : Request) :
    (r.fill body).shape = r.shape := by
  unfold Request.shape Request.fill
  rw [List.length_replicate]

theorem Request.parts_fill (body : Bytes) (r : Request) :
    (r.fill body).parts
      = ⟨r.identity, r.identity⟩ :: List.replicate r.bodies.length ⟨r.identity, body⟩ := by
  unfold Request.parts Request.fill
  rw [List.map_cons, List.map_replicate]

/-- A frame of its own is decoded to a tuple for each item. -/
theorem decode_plain_ne_nil {items : List FrameItem} (h : items ≠ [])
    (identifier : Option Bytes) : decode P (P.frame.serialize ⟨none, items⟩) identifier ≠ [] := by
  rw [decode_serialize, decodeFrame_plain]
  exact fun h' => h (List.map_eq_nil_iff.mp h')

/-- **There is a frame that is nobody's identity.** -/
theorem exists_fresh_frame (identities : List Bytes) :
    ∃ body, body ∉ identities ∧ ∀ identifier, decode P body identifier ≠ [] := by
  -- frames of different lengths have different bytes, and the identities
  -- are finitely many
  let body (n : Nat) : Bytes :=
    P.frame.serialize ⟨none, List.replicate (n + 1) ⟨.none, [], none⟩⟩
  have hinj : Function.Injective body := by
    intro m n h
    have hitem := congrArg (fun f => f.item.length) (P.frame.serialize_injective h)
    simpa using hitem
  obtain ⟨_, ⟨n, rfl⟩, hn⟩ :=
    (Set.infinite_range_of_injective hinj).exists_notMem_finset identities.toFinset
  exact ⟨body n, fun h => hn (List.mem_toFinset.mpr h),
    fun identifier => decode_plain_ne_nil P (by simp) identifier⟩

section Filled

variable {P} {body : Bytes}

/-- A frame under another frame in the place of the identity. -/
theorem not_attributed_cons_cons (hbody : ∀ identifier, decode P body identifier ≠ [])
    {a b : Part} (hb : b.data = body) (hab : a.data ≠ b.sender) (received : List Part) :
    ¬ Attributed P (a :: b :: received) := by
  rw [attributed_cons_cons, hb]
  rintro ⟨h, -⟩
  obtain ⟨t, ht⟩ := List.exists_mem_of_ne_nil _ (hbody (some a.data))
  exact hab ((identifier_of_mem_decode P ht).symm.trans (h t ht))

/-- **Once the decoder is one part behind, it stays behind**: until the
next request with two bodies or more, or past the end of the list. -/
theorem not_attributed_behind (hbody : ∀ identifier, decode P body identifier ≠ [])
    {requests : List Request} (hfresh : ∀ r ∈ requests, r.identity ≠ body) (part : Part) :
    ¬ Attributed P (part :: (requests.map (Request.fill body)).flatMap Request.parts) := by
  induction requests generalizing part with
  | nil => exact not_attributed_singleton P part
  | cons r requests ih =>
    have hr := hfresh r List.mem_cons_self
    have htail := ih (fun r' hr' => hfresh r' (List.mem_cons_of_mem r hr'))
    rw [List.map_cons, List.flatMap_cons, Request.parts_fill]
    cases hk : r.bodies.length with
    | zero => exact absurd (List.length_eq_zero_iff.mp hk) r.bodies_ne_nil
    | succ k =>
      intro h
      rw [List.cons_append, attributed_cons_cons] at h
      cases k with
      | zero =>
        -- one body: it is what the next identity is paired with
        exact htail ⟨r.identity, body⟩ h.2
      | succ k =>
        rw [List.replicate_succ, List.replicate_succ, List.cons_append,
          List.cons_append] at h
        exact not_attributed_cons_cons hbody rfl (fun e => hr e.symm) _ h.2

theorem not_attributed_of_ne_one (hbody : ∀ identifier, decode P body identifier ≠ [])
    {requests : List Request} (hfresh : ∀ r ∈ requests, r.identity ≠ body)
    (hne : ∃ r ∈ requests, r.bodies.length ≠ 1) :
    ¬ Attributed P ((requests.map (Request.fill body)).flatMap Request.parts) := by
  induction requests with
  | nil =>
    obtain ⟨r, hr, -⟩ := hne
    exact absurd hr List.not_mem_nil
  | cons r requests ih =>
    have hr := hfresh r List.mem_cons_self
    have hfresh' : ∀ r' ∈ requests, r'.identity ≠ body :=
      fun r' hr' => hfresh r' (List.mem_cons_of_mem r hr')
    rw [List.map_cons, List.flatMap_cons, Request.parts_fill]
    cases hk : r.bodies.length with
    | zero => exact absurd (List.length_eq_zero_iff.mp hk) r.bodies_ne_nil
    | succ k =>
      intro h
      rw [List.replicate_succ, List.cons_append, List.cons_append,
        attributed_cons_cons] at h
      cases k with
      | zero =>
        -- one body: the first request with another number is further on
        refine ih hfresh' ?_ h.2
        obtain ⟨r', hr', hne'⟩ := hne
        rcases List.mem_cons.mp hr' with rfl | hr'
        · exact absurd hk hne'
        · exact ⟨r', hr', hne'⟩
      | succ k =>
        cases k with
        | zero => exact not_attributed_behind hbody hfresh' _ h.2
        | succ k =>
          rw [List.replicate_succ, List.replicate_succ, List.cons_append,
            List.cons_append] at h
          exact not_attributed_cons_cons hbody rfl (fun e => hr e.symm) _ h.2

end Filled

/-! ## The condition -/

/-- A drain of a worker socket that starts empty and has the requests come
in, in their order, at any time while it is read. -/
def Drained (requests : List Request) (received : List Part) : Prop :=
  ∃ left, TransportUtils.Receives (-1) 0 [] (requests.map Request.parts) received left

theorem Drained.eq {requests : List Request} {received : List Part}
    (h : Drained requests received) : received = requests.flatMap Request.parts := by
  obtain ⟨left, h⟩ := h
  have heq := h.append_eq
  rwa [h.left_eq_nil (by decide), List.append_nil, List.nil_append,
    ← List.flatMap_def] at heq

/-- Everything can come in before the first part is read. -/
theorem drained_flatMap (requests : List Request) :
    Drained requests (requests.flatMap Request.parts) := by
  have hread : ∀ (parts : List Part) (n : Nat),
      TransportUtils.Receives (-1) n parts [] parts [] := by
    intro parts
    induction parts with
    | nil => exact fun n => .again n
    | cons part parts ih => exact fun n => .recv (fun h => absurd h.1 (by decide)) (ih (n + 1))
  have harrive : ∀ (requests : List Request) (queue : List Part),
      TransportUtils.Receives (-1) 0 queue (requests.map Request.parts)
        (queue ++ requests.flatMap Request.parts) [] := by
    intro requests
    induction requests with
    | nil =>
      intro queue
      rw [List.flatMap_nil, List.append_nil]
      exact hread queue 0
    | cons r requests ih =>
      intro queue
      refine .arrive ?_
      rw [List.flatMap_cons, ← List.append_assoc]
      exact ih (queue ++ r.parts)
  exact ⟨[], harrive requests []⟩

/-- **The tuples of a batch carry the identities of their senders, for
whatever its requests contain, exactly where every request has one
body.** -/
theorem attributed_iff (requests : List Request) :
    (∀ batch : List Request, batch.map Request.shape = requests.map Request.shape →
        ∀ received, Drained batch received → Attributed P received)
      ↔ ∀ r ∈ requests, r.bodies.length = 1 := by
  constructor
  · intro h
    by_contra hne
    push Not at hne
    obtain ⟨body, hfresh, hbody⟩ :=
      exists_fresh_frame P (requests.map Request.identity)
    refine not_attributed_of_ne_one hbody
      (fun r hr e => hfresh (e ▸ List.mem_map_of_mem hr)) hne
      (h (requests.map (Request.fill body)) ?_ _ (drained_flatMap _))
    rw [List.map_map]
    exact List.map_congr_left (fun r _ => Request.shape_fill body r)
  · intro h batch hbatch received hreceived
    rw [hreceived.eq]
    refine attributed_of_one_body P (fun r hr => ?_)
    have hmem : r.shape ∈ requests.map Request.shape :=
      hbatch ▸ List.mem_map_of_mem hr
    obtain ⟨r', hr', hshape⟩ := List.mem_map.mp hmem
    exact (congrArg Prod.snd hshape).symm.trans (h r' hr')

/-- **A frame under a name of the client's choice.** The client `a` sends a
frame, a name and another frame, and the second frame is decoded as one of
the client `b`; and where `a` sends two bodies ahead of a request of `b`,
the decoder reads past the end of the list. -/
theorem not_attributed_two_bodies :
    (¬ Attributed wireFormat
        (Request.parts ⟨ascii "a", [wireFormat.frame.serialize ⟨none, [setItem]⟩,
          ascii "b", wireFormat.frame.serialize ⟨none, [setItem]⟩], by simp⟩))
      ∧ decodeMessages wireFormat
          (([⟨ascii "a", [[], []], by simp⟩,
            ⟨ascii "b", [wireFormat.frame.serialize ⟨none, [setItem]⟩], by simp⟩]
              : List Request).flatMap Request.parts |>.map Part.data) true = none := by
  constructor
  · intro h
    have h' := h.2 2 (by decide) _ rfl _ rfl
    revert h'
    decide
  · decide

end FrameDecoder

end VoloDB
