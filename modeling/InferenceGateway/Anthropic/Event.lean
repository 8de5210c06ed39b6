import InferenceGateway.Anthropic.Message
import InferenceGateway.Document.Tagged
import InferenceGateway.Provider

/-!
# Events of Anthropic

A streamed answer of the vendor is a row of events: the message begins, texts are added to
it, it gets a reason to end, and it ends. `fragments` makes the fragments of the gateway of
them. A stream is whole only if the event that ends the message has come.
-/

namespace InferenceGateway.Anthropic

open Document

/-- An event of a stream. -/
inductive Event where
  | messageStart (id : String)
  | textDelta (text : String)
  | messageDelta (stopReason : Option String)
  | messageStop
  | error (kind message : String)
  /-- An event, or an addition to the message, of another kind. -/
  | other
deriving DecidableEq, Repr

namespace Event

/-! ## Reading -/

/-- The kinds of events. -/
inductive Kind where
  | messageStart
  | contentBlockDelta
  | messageDelta
  | messageStop
  | error
  | other

/-- The names of the kinds of events. -/
def kinds : Tags Kind where
  named := [("message_start", .messageStart), ("content_block_delta", .contentBlockDelta),
    ("message_delta", .messageDelta), ("message_stop", .messageStop), ("error", .error)]
  other := .other

/-- The kinds of additions to a message: a text, or anything else. -/
def deltaKinds : Tags Bool := ⟨[("text_delta", true)], false⟩

/-- The message that begins. -/
def startFields : Fields String := .required "id" .text

/-- Reads an addition to the message. -/
def readDelta : Reader Event := fun d n => do
  let v ← deltaKinds.split "type" "internally tagged enum DeltaData" d n
  if v.tag then
    let fields : Fields String := .required "text" .text
    return .textDelta (← fields.closed "struct variant DeltaData::TextDelta" .buffered v.rest)
  else
    v.rest.readEmpty
    return .other

/-- The reason to end. -/
def reasonFields : Fields (Option String) := .optional "stop_reason" .text

/-- What an event tells of an error. -/
def errorFields : Fields Event :=
  Event.error <$> .defaulting "type" .text "" <*> .required "message" .text

/-- Reads the one field of an event. -/
def single {α : Type} (variant name : String) (r : Reader α) (rest : Node) : Reading α :=
  (Fields.required name r).closed ("struct variant AnthropicEvent::" ++ variant) .buffered rest

/-- Reads what an event of a kind has beside its type. -/
def readRest (rest : Node) : Kind → Reading Event
  | .messageStart =>
    .messageStart <$>
      single "MessageStart" "message" (startFields.closed "struct MessageStartData") rest
  | .contentBlockDelta => single "ContentBlockDelta" "delta" readDelta rest
  | .messageDelta =>
    .messageDelta <$>
      single "MessageDelta" "delta" (reasonFields.closed "struct MessageDeltaData") rest
  | .messageStop => do rest.readEmpty; return .messageStop
  | .error => single "Error" "error" (errorFields.closed "struct ErrorData") rest
  | .other => do rest.readEmpty; return .other

/-- Reads an event. -/
def read : Reader Event := fun d n => do
  let v ← kinds.split "type" "internally tagged enum AnthropicEvent" d n
  readRest v.rest v.tag

end Event

/-! ## Fragments -/

/-- The name of the vendor in messages. -/
def vendor : String := "Anthropic"

/-- How a fragment is made of an answer's id, and a text or a reason to end. -/
abbrev MakeChunk (α : Type) := (id : String) → (text finish : Option String) → α

/-- The fragments of the data of a stream, while the message has an id. -/
def fragments {α : Type} (make : MakeChunk α) :
    (id : String) → List (Except GatewayError String) → Fragments α
  | _, [] => [.error .truncatedStream]
  | _, .error e :: _ => [.error e]
  | id, .ok data :: rest =>
    match Provider.decodeFragment vendor Event.read data with
    | .error e => [.error e]
    | .ok (.messageStart id) => fragments make id rest
    | .ok (.textDelta text) => .ok (make id (some text) none) :: fragments make id rest
    | .ok (.messageDelta (some reason)) =>
      .ok (make id none (some (finishReason reason))) :: fragments make id rest
    | .ok .messageStop => []
    | .ok (.error kind message) => [.error (.vendor 502 (.event vendor kind message))]
    | .ok (.messageDelta none) | .ok .other => fragments make id rest

end InferenceGateway.Anthropic
