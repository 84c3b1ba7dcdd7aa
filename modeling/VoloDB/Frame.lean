import VoloDB.MessageCodec

/-!
# Frames

A frame carries the operations of one request. With an identifier of its
own it is **atomic**: its items are the operations of one transaction.
Without one, every item is a transaction by itself and carries its own
identifier.

`FrameUtils` names the type of a message, `FrameBuilder` puts messages
into a frame on either side of the wire, and `FrameDecoder` takes them out
again. The decoder produces **tuples**: the identifier of a transaction,
the identity of the client that asked for it, and the messages of the
transaction.

The decoder is a loop with a pointer to the tuple being filled, which for
an atomic frame stays the same throughout and for any other moves to a
fresh tuple with every item. `decodeFrame_atomic` and `decodeFrame_plain`
are its two closed forms, and everything below them reads those.
-/

namespace VoloDB

/-! ## The types of messages -/

/-- `message.GetTypeName()`. -/
def Message.getTypeName : Message → Bytes
  | .createDatabase _ => ascii "CreateDatabaseOperation"
  | .dropDatabase _ => ascii "DropDatabaseOperation"
  | .createStore _ => ascii "CreateStoreOperation"
  | .dropStore _ => ascii "DropStoreOperation"
  | .set _ => ascii "SetOperation"
  | .delete _ => ascii "DeleteOperation"
  | .get _ => ascii "GetOperation"
  | .result _ => ascii "Result"
  | .other typeName => typeName

namespace FrameUtils

/-- `FrameUtils::getFrameType`. The eight type names it compares against
are those of the eight message types, and of no other. -/
def getFrameType : Message → FrameItemType
  | .createDatabase _ => .createDatabase
  | .dropDatabase _ => .dropDatabase
  | .createStore _ => .createStore
  | .dropStore _ => .dropStore
  | .set _ => .set
  | .delete _ => .delete
  | .get _ => .get
  | .result _ => .serverResponse
  | .other _ => .none

/-- `FrameUtils::isDefinitionFrame`. -/
def isDefinitionFrame (message : Message) : Bool :=
  let type := getFrameType message
  type = .createDatabase || type = .dropDatabase || type = .createStore
    || type = .dropStore

end FrameUtils

open FrameUtils

/-! ## Building a frame -/

/-- `FrameBuilder`: the frame built so far. -/
structure FrameBuilder where
  frame : Frame

namespace FrameBuilder

variable (P : Protobuf)

/-- The constructor: an atomic frame takes the identifier for itself. -/
def new (isAtomic : Bool) (uuid : Bytes) : FrameBuilder :=
  ⟨⟨if isAtomic then some uuid else none, []⟩⟩

/-- `FrameBuilder::addFrame`: append a message as an item, which gets the
identifier where the frame has none of its own. A message of an unknown
type is refused with an exception, whose text is the error. -/
def addFrame (b : FrameBuilder) (message : Message) (uuid : Bytes) :
    Except Bytes FrameBuilder :=
  let messageType := getFrameType message
  if messageType = .none then
    .error (message.getTypeName ++ ascii " message is not supported to be framed")
  else
    .ok ⟨⟨b.frame.identifier, b.frame.item ++
      [⟨messageType, message.serialize P,
        if b.frame.identifier.isSome then none else some uuid⟩]⟩⟩

/-- `FrameBuilder::getBytes`. -/
def getBytes (b : FrameBuilder) : Bytes := P.frame.serialize b.frame

/-- `FrameBuilder::getBytesOfFrameWithMessage`: a frame of its own for one
message, with empty identifiers. -/
def getBytesOfFrameWithMessage (message : Message) : Except Bytes Bytes :=
  match (new false []).addFrame P message [] with
  | .error what => .error what
  | .ok b => .ok (b.getBytes P)

end FrameBuilder

/-! ## Taking a frame apart -/

/-- `FrameMessagesTuple`: a transaction as the server handles it. -/
structure FrameMessagesTuple where
  /-- The identifier of the transaction. -/
  transactionID : Bytes
  /-- The identity of the client, as the router knows it. -/
  identifier : Bytes
  /-- The operations. -/
  messages : List Message
deriving DecidableEq

namespace FrameDecoder

variable (P : Protobuf)

/-- The message of an item, by the branches of `FrameDecoder::decode`: a
tag without a branch, or a payload that does not parse, gives none. -/
def decodeItem (item : FrameItem) : Option Message :=
  match item.type with
  | .createStore => (P.createStore.parse item.data).map .createStore
  | .dropStore => (P.dropStore.parse item.data).map .dropStore
  | .serverResponse => (P.result.parse item.data).map .result
  | .set => (P.set.parse item.data).map .set
  | .delete => (P.delete.parse item.data).map .delete
  | .get => (P.get.parse item.data).map .get
  | _ => none

/-- A tuple just made: no transaction identifier, the identity of the
client where there is one, no messages. -/
def newTuple (identifier : Option Bytes) : FrameMessagesTuple :=
  ⟨[], identifier.getD [], []⟩

/-- The decoder's loop state: the tuples it is done with, and the tuple
`messages` points to, which is the last one of the result. -/
structure DecodeState where
  done : List FrameMessagesTuple
  messages : Option FrameMessagesTuple

/-- The list `messagesPointer` holds. -/
def DecodeState.tuples (s : DecodeState) : List FrameMessagesTuple :=
  s.done ++ s.messages.toList

/-- One turn of the decoder's loop. -/
def decodeStep (isAtomic : Bool) (identifier : Option Bytes) (s : DecodeState)
    (item : FrameItem) : DecodeState :=
  let s := if isAtomic then s else ⟨s.tuples, some (newTuple identifier)⟩
  match decodeItem P item with
  | none => s -- logged as unknown and skipped: the tuple stays as it is
  | some message =>
    { s with
      messages := s.messages.map (fun t =>
        { t with
          messages := t.messages ++ [message]
          transactionID :=
            if isAtomic then t.transactionID else item.identifier.getD [] }) }

/-- `FrameDecoder::decode` of a frame that parsed. -/
def decodeFrame (frame : Frame) (identifier : Option Bytes) :
    List FrameMessagesTuple :=
  let isAtomic := frame.identifier.isSome
  let start : DecodeState := ⟨[], if isAtomic then some (newTuple identifier) else none⟩
  let final := frame.item.foldl (decodeStep P isAtomic identifier) start
  if isAtomic then
    DecodeState.tuples
      { final with
        messages := final.messages.map (fun t =>
          { t with transactionID := frame.identifier.getD [] }) }
  else final.tuples

/-- `FrameDecoder::decode` of one message. -/
def decode (message : Bytes) (identifier : Option Bytes) :
    List FrameMessagesTuple :=
  match P.frame.parse message with
  | none => []
  | some frame => decodeFrame P frame identifier

/-- The tuple an item of a frame without identifier becomes. An item that
does not decode leaves the tuple as it was made, without identifier. -/
def itemTuple (identifier : Option Bytes) (item : FrameItem) : FrameMessagesTuple :=
  match decodeItem P item with
  | none => newTuple identifier
  | some message => ⟨item.identifier.getD [], identifier.getD [], [message]⟩

/-! ### The two closed forms -/

theorem foldl_decodeStep_atomic (identifier : Option Bytes) (items : List FrameItem)
    (t : FrameMessagesTuple) :
    items.foldl (decodeStep P true identifier) ⟨[], some t⟩
      = ⟨[], some { t with messages := t.messages ++ items.filterMap (decodeItem P) }⟩ := by
  induction items generalizing t with
  | nil => simp
  | cons item items ih =>
    rw [List.foldl_cons]
    cases h : decodeItem P item with
    | none =>
      rw [show decodeStep P true identifier ⟨[], some t⟩ item = ⟨[], some t⟩ by
        simp [decodeStep, h], ih, List.filterMap_cons_none h]
    | some message =>
      rw [show decodeStep P true identifier ⟨[], some t⟩ item
          = ⟨[], some { t with messages := t.messages ++ [message] }⟩ by
        simp [decodeStep, h], ih, List.filterMap_cons_some h, List.append_assoc]
      rfl

theorem decodeStep_plain (identifier : Option Bytes) (s : DecodeState)
    (item : FrameItem) :
    decodeStep P false identifier s item
      = ⟨s.tuples, some (itemTuple P identifier item)⟩ := by
  cases h : decodeItem P item <;> simp [decodeStep, itemTuple, newTuple, h]

theorem tuples_foldl_decodeStep_plain (identifier : Option Bytes)
    (items : List FrameItem) (s : DecodeState) :
    (items.foldl (decodeStep P false identifier) s).tuples
      = s.tuples ++ items.map (itemTuple P identifier) := by
  induction items generalizing s with
  | nil => simp
  | cons item items ih =>
    rw [List.foldl_cons, ih, decodeStep_plain, List.map_cons]
    simp [DecodeState.tuples]

/-- **An atomic frame decodes to one tuple**, holding the messages of the
items that decode. -/
theorem decodeFrame_atomic (id : Bytes) (items : List FrameItem)
    (identifier : Option Bytes) :
    decodeFrame P ⟨some id, items⟩ identifier
      = [⟨id, identifier.getD [], items.filterMap (decodeItem P)⟩] := by
  unfold decodeFrame
  simp only [Option.isSome_some, if_true, foldl_decodeStep_atomic]
  simp [DecodeState.tuples, newTuple]

/-- **Any other frame decodes to one tuple an item.** -/
theorem decodeFrame_plain (items : List FrameItem) (identifier : Option Bytes) :
    decodeFrame P ⟨none, items⟩ identifier = items.map (itemTuple P identifier) := by
  unfold decodeFrame
  simp only [Option.isSome_none, Bool.false_eq_true, if_false,
    tuples_foldl_decodeStep_plain]
  simp [DecodeState.tuples]

theorem decode_of_parse {message : Bytes} {frame : Frame}
    (h : P.frame.parse message = some frame) (identifier : Option Bytes) :
    decode P message identifier = decodeFrame P frame identifier := by
  rw [decode, h]

@[simp] theorem decode_serialize (frame : Frame) (identifier : Option Bytes) :
    decode P (P.frame.serialize frame) identifier = decodeFrame P frame identifier :=
  decode_of_parse P (P.frame.parse_serialize frame) identifier

/-- **Every tuple of a message carries the identity the message came
with.** -/
theorem identifier_of_mem_decode {message : Bytes} {identifier : Option Bytes}
    {t : FrameMessagesTuple} (h : t ∈ decode P message identifier) :
    t.identifier = identifier.getD [] := by
  cases hp : P.frame.parse message with
  | none =>
    rw [decode, hp] at h
    exact absurd h List.not_mem_nil
  | some frame =>
    obtain ⟨id, items⟩ := frame
    rw [decode_of_parse P hp] at h
    cases id with
    | none =>
      rw [decodeFrame_plain] at h
      obtain ⟨item, -, rfl⟩ := List.mem_map.mp h
      cases hd : decodeItem P item <;> simp [itemTuple, newTuple, hd]
    | some id =>
      rw [decodeFrame_atomic] at h
      rw [List.mem_singleton.mp h]

/-! ## What an atomic frame loses

The message of an item is what its sender serialized under its tag. The
decoder has a branch for six of the eight tags that stand for a message,
and skips over an item it cannot decode. In an atomic frame this takes the
item out of the transaction and leaves the others in. -/

/-- The message an item stands for: its payload, read as the type its tag
names. -/
def denotes (item : FrameItem) : Option Message :=
  match item.type with
  | .none => none
  | .createDatabase => (P.createDatabase.parse item.data).map .createDatabase
  | .dropDatabase => (P.dropDatabase.parse item.data).map .dropDatabase
  | .createStore => (P.createStore.parse item.data).map .createStore
  | .dropStore => (P.dropStore.parse item.data).map .dropStore
  | .set => (P.set.parse item.data).map .set
  | .get => (P.get.parse item.data).map .get
  | .delete => (P.delete.parse item.data).map .delete
  | .serverResponse => (P.result.parse item.data).map .result

/-- The tags the decoder has a branch for. -/
def hasBranch : FrameItemType → Bool
  | .none | .createDatabase | .dropDatabase => false
  | .createStore | .dropStore | .set | .get | .delete | .serverResponse => true

/-- **An item the decoder can read**: its tag has a branch and its payload
is a message of the type the tag names. -/
def Decodable (item : FrameItem) : Prop :=
  hasBranch item.type = true ∧ (denotes P item).isSome = true

instance (item : FrameItem) : Decidable (Decodable P item) :=
  inferInstanceAs (Decidable (_ ∧ _))

/-- The decoder gives an item the message it stands for, or none. -/
theorem decodeItem_eq (item : FrameItem) :
    decodeItem P item = if Decodable P item then denotes P item else none := by
  obtain ⟨type, data, id⟩ := item
  unfold Decodable
  cases type with
  | none => rfl
  | createDatabase => rfl
  | dropDatabase => rfl
  | _ =>
    simp only [decodeItem, denotes, hasBranch, true_and]
    split
    · rfl
    · next h => simpa using h

theorem decodeItem_of_decodable {item : FrameItem} (h : Decodable P item) :
    decodeItem P item = denotes P item := by
  rw [decodeItem_eq, if_pos h]

theorem decodeItem_of_not_decodable {item : FrameItem} (h : ¬ Decodable P item) :
    decodeItem P item = none := by
  rw [decodeItem_eq, if_neg h]

theorem isSome_decodeItem (item : FrameItem) :
    (decodeItem P item).isSome = true ↔ Decodable P item := by
  rw [decodeItem_eq]
  by_cases h : Decodable P item
  · rw [if_pos h]
    exact ⟨fun _ => h, fun _ => h.2⟩
  · rw [if_neg h]
    exact ⟨fun h' => absurd h' Bool.false_ne_true, fun h' => absurd h' h⟩

/-- The messages the decoder takes from a list of items. -/
theorem filterMap_decodeItem (items : List FrameItem) :
    items.filterMap (decodeItem P)
      = (items.filter (fun item => Decodable P item)).filterMap (denotes P) := by
  rw [List.filterMap_filter]
  refine congrArg (fun read => items.filterMap read) (funext (fun item => ?_))
  rw [decodeItem_eq]
  simp only [decide_eq_true_eq]

/-- **A message of an atomic frame is handed on whole or not at all**: the
one tuple holds the message of every item, in the order of the items, or
no tuple holds any. -/
def WholeOrNothing (message : Bytes) (identifier : Option Bytes)
    (items : List FrameItem) : Prop :=
  (decode P message identifier).map (fun t => t.messages.map some)
      = [items.map (denotes P)]
    ∨ ∀ t ∈ decode P message identifier, t.messages = []

instance (message : Bytes) (identifier : Option Bytes) (items : List FrameItem) :
    Decidable (WholeOrNothing P message identifier items) :=
  inferInstanceAs (Decidable (_ ∨ _))

theorem map_some_filterMap_decodeItem (items : List FrameItem) :
    (items.filterMap (decodeItem P)).map some = items.map (denotes P)
      ↔ ∀ item ∈ items, Decodable P item := by
  constructor
  · intro h
    -- every element of the left side is a value, so every element of the
    -- right side is; and the lengths leave no room for a skipped item
    have hlen : (items.filterMap (decodeItem P)).length = items.length := by
      simpa using congrArg List.length h
    intro item hitem
    rw [← isSome_decodeItem]
    exact List.filterMap_length_eq_length.mp hlen item hitem
  · intro h
    induction items with
    | nil => rfl
    | cons item items ih =>
      have hitem := h item List.mem_cons_self
      obtain ⟨message, hm⟩ := Option.isSome_iff_exists.mp hitem.2
      rw [List.filterMap_cons_some ((decodeItem_of_decodable P hitem).trans hm),
        List.map_cons, List.map_cons, hm,
        ih (fun x hx => h x (List.mem_cons_of_mem item hx))]

/-- **An atomic frame is handed on whole or not at all exactly where the
decoder can read all of its items or none of them.** -/
theorem wholeOrNothing_iff (message : Bytes) (id : Bytes) (items : List FrameItem)
    (identifier : Option Bytes)
    (h : P.frame.parse message = some ⟨some id, items⟩) :
    WholeOrNothing P message identifier items
      ↔ (∀ item ∈ items, Decodable P item) ∨ (∀ item ∈ items, ¬ Decodable P item) := by
  unfold WholeOrNothing
  rw [decode_of_parse P h, decodeFrame_atomic, List.map_singleton,
    List.singleton_inj, map_some_filterMap_decodeItem, List.forall_mem_singleton,
    List.filterMap_eq_nil_iff]
  refine or_congr_right (forall₂_congr (fun item _ => ?_))
  rw [← isSome_decodeItem, Option.not_isSome_iff_eq_none]

/-- A `SET` of the store `t` under the identifier of its frame. -/
def setItem : FrameItem := ⟨.set, wireFormat.set.serialize ⟨[⟨ascii "t"⟩], [], []⟩, none⟩

/-- A `CREATE_DATABASE` of `d` under the identifier of its frame. -/
def createDatabaseItem : FrameItem :=
  ⟨.createDatabase, wireFormat.createDatabase.serialize ⟨ascii "d"⟩, none⟩

/-- Two items the decoder reads: the condition holds, and with it the
whole frame is handed on. -/
theorem wholeOrNothing_iff_two_sets :
    WholeOrNothing wireFormat
        (wireFormat.frame.serialize ⟨some (ascii "x"), [setItem, setItem]⟩) none
        [setItem, setItem]
      ↔ (∀ item ∈ [setItem, setItem], Decodable wireFormat item)
        ∨ (∀ item ∈ [setItem, setItem], ¬ Decodable wireFormat item) :=
  wholeOrNothing_iff wireFormat _ (ascii "x") [setItem, setItem] none
    (wireFormat.frame.parse_serialize _)

/-- **Half a transaction is handed on**: of an atomic frame that sets a row
and creates a database, the decoder hands on the row. -/
theorem not_wholeOrNothing_set_createDatabase :
    ¬ WholeOrNothing wireFormat
      (wireFormat.frame.serialize ⟨some (ascii "x"), [setItem, createDatabaseItem]⟩)
      none [setItem, createDatabaseItem] := by
  decide

end FrameDecoder

end VoloDB
