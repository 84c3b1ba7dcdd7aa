import VoloDB.ClientTransport
import VoloDB.ExecutorRuns

/-!
# Receiving the replies

A worker of the client hands what it drains from its socket to
`Executor::didReceiveMessage`, in batches of whatever length the drains
happen to have. The executor decodes a batch, takes the first message of
every tuple, and hands the results among these to its delegate, in one
call.

A reply is a frame with one item, so its tuple has the one message the
flattening keeps (`decode_reply`); bytes that are no frame have no tuple,
and an item that cannot be read leaves a tuple without messages. So every
result is handed over once and in order, however the replies were batched
and whatever came in between them (`didReceiveMessage_results`).
-/

namespace VoloDB

open FrameUtils FrameDecoder

namespace FrameDecoder

/-- `FrameDecoder::flattenFrameMessagesTupleListToSingleList`: the first
message of every tuple that has one. -/
def flattenFrameMessagesTupleListToSingleList (tuples : List FrameMessagesTuple) :
    List Message :=
  tuples.filterMap (fun messagesTuple => messagesTuple.messages.head?)

end FrameDecoder

namespace ClientExecutor

variable (P : Protobuf)

/-- `dynamic_cast<Result*>`, with `none` for a null pointer. -/
def asResult : Message → Option Result
  | .result result => some result
  | _ => none

/-- **`Executor::didReceiveMessage`**: the calls of `didReceiveResponse` it
makes, or nothing where the decoder reads past the end of the batch. -/
def didReceiveMessage (delegate : Bool) (messages : List Bytes) :
    Option (List (List (Option Result))) :=
  match decodeMessages P messages false with
  | none => none
  | some responses =>
    let flattenResponses := flattenFrameMessagesTupleListToSingleList responses
    let results := flattenResponses.flatMap (fun response =>
      if getFrameType response = .serverResponse ∧ delegate = true then [asResult response]
      else [])
    some (if results.length > 0 then [results] else [])

/-! ## What arrives -/

/-- Bytes that are no frame, or a frame the decoder can read nothing of. -/
def Undecodable (bytes : Bytes) : Prop :=
  ∀ t ∈ decode P bytes none, t.messages = []

/-- **What arrives at the client**: a result, as the server frames it, or
bytes that cannot be decoded. -/
inductive Arrival where
  | reply (result : Result) (bytes : Bytes)
    (framed : FrameBuilder.getBytesOfFrameWithMessage P (.result result) = .ok bytes)
  | garbage (bytes : Bytes) (undecodable : Undecodable P bytes)

namespace Arrival

variable {P}

/-- What is received. -/
def bytes : Arrival P → Bytes
  | .reply _ bytes _ => bytes
  | .garbage bytes _ => bytes

/-- The result in it. -/
def result? : Arrival P → Option Result
  | .reply result _ _ => some result
  | .garbage _ _ => none

end Arrival

/-- The results of a batch. -/
def results {P : Protobuf} (batch : List (Arrival P)) : List Result :=
  batch.filterMap Arrival.result?

/-! ## Decoding a batch -/

/-- A reply is decoded to one tuple, with the result as its only
message. -/
theorem decode_reply {result : Result} {bytes : Bytes}
    (h : FrameBuilder.getBytesOfFrameWithMessage P (.result result) = .ok bytes) :
    decode P bytes none = [⟨[], [], [.result result]⟩] := by
  have hbytes : bytes = NDBMessageExecutor.replyBytes P result := (Except.ok.inj h).symm
  rw [hbytes, NDBMessageExecutor.replyBytes, NDBMessageExecutor.replyFrame, decode_serialize,
    decodeFrame_plain, List.map_singleton]
  simp [itemTuple, decodeItem]

/-- The messages the executor takes from what arrived are the results. -/
theorem flatten_decode (a : Arrival P) :
    flattenFrameMessagesTupleListToSingleList (decode P a.bytes none)
      = a.result?.toList.map Message.result := by
  unfold flattenFrameMessagesTupleListToSingleList
  cases a with
  | reply result bytes framed =>
    rw [Arrival.bytes, decode_reply P framed]
    rfl
  | garbage bytes undecodable =>
    refine List.filterMap_eq_nil_iff.mpr (fun t ht => ?_)
    rw [undecodable t ht]
    rfl

theorem flatten_decodeMessages (batch : List (Arrival P)) :
    decodeMessages P (batch.map Arrival.bytes) false
        = some (batch.flatMap (fun a => decode P a.bytes none))
      ∧ flattenFrameMessagesTupleListToSingleList
          (batch.flatMap (fun a => decode P a.bytes none))
        = (results batch).map Message.result := by
  constructor
  · rw [decodeMessages_false, List.flatMap_map]
  · induction batch with
    | nil => rfl
    | cons a batch ih =>
      have ha := flatten_decode P a
      unfold flattenFrameMessagesTupleListToSingleList at ha ih ⊢
      rw [List.flatMap_cons, List.filterMap_append, ha, ih]
      unfold results
      cases h : a.result? with
      | none => rw [List.filterMap_cons_none h]; rfl
      | some result => rw [List.filterMap_cons_some h]; rfl

/-- The calls of `didReceiveResponse` for a batch: one with all of its
results, if it has any. -/
def responses (batch : List (Arrival P)) : List (List (Option Result)) :=
  if results batch = [] then [] else [(results batch).map some]

/-- **A batch is answered with one call**, or with none where it holds no
result. -/
theorem didReceiveMessage_eq (batch : List (Arrival P)) :
    didReceiveMessage P true (batch.map Arrival.bytes) = some (responses P batch) := by
  obtain ⟨hdecode, hflatten⟩ := flatten_decodeMessages P batch
  unfold didReceiveMessage
  rw [hdecode]
  dsimp only
  rw [hflatten, List.flatMap_map]
  have hcalls : (results batch).flatMap (fun result =>
      if getFrameType (.result result) = .serverResponse ∧ true = true then
        [asResult (.result result)]
      else []) = (results batch).map some := by
    simp [getFrameType, asResult, List.map_eq_flatMap]
  rw [hcalls, responses]
  cases results batch <;> rfl

theorem flatten_responses (batches : List (List (Arrival P))) :
    (batches.flatMap (responses P)).flatten = (results batches.flatten).map some := by
  induction batches with
  | nil => rfl
  | cons batch batches ih =>
    have hbatch : (responses P batch).flatten = (results batch).map some := by
      unfold responses
      split
      · next h => rw [h]; rfl
      · exact List.flatten_singleton
    rw [List.flatMap_cons, List.flatten_append, ih, hbatch, List.flatten_cons]
    unfold results
    rw [List.filterMap_append, List.map_append]

/-- **Every result is handed to the delegate once and in order**, whatever
the batches are and whatever arrives between the results: the calls made
for the batches hand over the results that arrived, and for a batch without
results no call is made. -/
theorem didReceiveMessage_results (batches : List (List (Arrival P))) :
    (∃ calls,
        batches.mapM (fun batch => didReceiveMessage P true (batch.map Arrival.bytes))
          = some calls
        ∧ calls.flatten.flatten = (results batches.flatten).map some)
      ∧ ∀ batch ∈ batches, results batch = [] →
          didReceiveMessage P true (batch.map Arrival.bytes) = some [] := by
  constructor
  · refine ⟨batches.map (responses P), ?_, ?_⟩
    · simp only [didReceiveMessage_eq]
      exact List.mapM_pure
    · rw [← List.flatMap_def]
      exact flatten_responses P batches
  · intro batch _ h
    rw [didReceiveMessage_eq, responses, if_pos h]

theorem undecodable_of_decode_eq_nil {bytes : Bytes} (h : decode P bytes none = []) :
    Undecodable P bytes := by
  intro t ht
  rw [h] at ht
  exact absurd ht List.not_mem_nil

/-- Two replies, in two batches, and what cannot be decoded between them. -/
def twoReplies : List (List (Arrival wireFormat)) :=
  [[.reply (NDBMessageExecutor.makeResult (ascii "x")) _ rfl,
      .garbage [255] (undecodable_of_decode_eq_nil _ rfl)],
    [.garbage [] (undecodable_of_decode_eq_nil _ rfl),
      .reply (NDBMessageExecutor.makeResult (ascii "y")) _ rfl]]

/-- Both results are handed over, the first one first. -/
theorem didReceiveMessage_results_two :
    ∃ calls, twoReplies.mapM (fun batch =>
        didReceiveMessage wireFormat true (batch.map Arrival.bytes)) = some calls
      ∧ calls.flatten.flatten = [some (NDBMessageExecutor.makeResult (ascii "x")),
          some (NDBMessageExecutor.makeResult (ascii "y"))] :=
  (didReceiveMessage_results wireFormat twoReplies).1

/-! ## The drains of the worker -/

/-- A drain of the client socket, with the executor for a delegate. -/
def drainReplies (socket : Socket) (errno : Int) : Option (List (List (Option Result))) :=
  ((ClientTransport.receiveQueuedMessages socket none true errno).passed.delivered.mapM
    (didReceiveMessage P true)).map List.flatten

/-- **Drains that end in `EAGAIN` hand over every result that arrives**, one
call a drain. -/
theorem drainReplies_eq (batch : List (Arrival P)) (errno : Int) :
    drainReplies P ⟨batch.map Arrival.bytes, EAGAIN⟩ errno = some (responses P batch) := by
  unfold drainReplies
  rw [ClientTransport.passed_of_again rfl, ClientTransport.passOn]
  cases batch with
  | nil => rfl
  | cons a batch =>
    have h := didReceiveMessage_eq P (a :: batch)
    rw [List.map_cons] at h ⊢
    simp only [List.length_cons, gt_iff_lt, Nat.zero_lt_succ, if_true, List.mapM_cons,
      List.mapM_nil, h]
    simp

end ClientExecutor

end VoloDB
