import InferenceGateway.Document.Record
import InferenceGateway.Error

/-!
# Chat

The requests, the answers and the fragments of streamed answers of chat endpoints: what
each is made of, how it is read and how it is written.
-/

namespace InferenceGateway

open Document Numeral

/-- A count of tokens. -/
structure Usage where
  promptTokens : Nat
  completionTokens : Nat
  totalTokens : Nat
deriving DecidableEq, Repr

namespace Usage

/-- The members of counts of tokens. -/
def fields : Fields Usage :=
  Usage.mk <$> .defaulting "prompt_tokens" .word32 0 <*> .defaulting "completion_tokens" .word32 0
    <*> .defaulting "total_tokens" .word32 0

/-- Reads counts of tokens. -/
def read : Reader Usage := fields.closed "struct Usage"

/-- Counts of tokens as data. -/
def toJson (u : Usage) : Json := .object [("prompt_tokens", .integer u.promptTokens),
  ("completion_tokens", .integer u.completionTokens), ("total_tokens", .integer u.totalTokens)]

end Usage

namespace Chat

/-! ## Messages -/

/-- A message of a conversation. -/
structure Message where
  role : String
  content : String
deriving DecidableEq, Repr

namespace Message

/-- The members of a message. -/
def fields : Fields Message :=
  Message.mk <$> .required "role" .text <*> .required "content" .text

/-- Reads a message. -/
def read : Reader Message := fields.closed "struct Message"

/-- A message as data. -/
def toJson (m : Message) : Json := .object [("role", .text m.role), ("content", .text m.content)]

/-- A message of the assistant. -/
def assistant (content : String) : Message := ⟨"assistant", content⟩

end Message

/-! ## Requests -/

/-- The payload of a chat request. Members beyond the known ones are kept as they are. -/
structure Request where
  messages : List Message
  temperature : Option Binary
  maxTokens : Option Nat
  stream : Bool
  topP : Option Binary
  stop : Option (List String)
  extra : List (String × Json)

namespace Request

/-- The members of a request. -/
def fields : Fields (List (String × Json) → Request) :=
  Request.mk <$> .required "messages" (.list Message.read) <*> .optional "temperature" .single
    <*> .optional "max_tokens" .word32 <*> .defaulting "stream" .bool false
    <*> .optional "top_p" .single <*> .optional "stop" (.list .text)

/-- Reads a request. -/
def read : Reader Request := fields.keeping "struct ChatRequest"

/-- A request as data. -/
def toJson (r : Request) : Json := .object <|
  [("messages", .array (r.messages.map Message.toJson))]
    ++ Json.member? "temperature" .single r.temperature
    ++ Json.member? "max_tokens" (fun (n : Nat) => .integer n) r.maxTokens
    ++ [("stream", .bool r.stream)]
    ++ Json.member? "top_p" .single r.topP
    ++ Json.member? "stop" (fun ss => .array (ss.map .text)) r.stop
    ++ r.extra

/-- What is wrong with the values of a request, if anything: a temperature outside of 0 to
    2, a `top_p` outside of 0 to 1, or no messages. -/
def refusal? (r : Request) : Option Refusal :=
  match r.temperature.filter (! ·.isWithin 2), r.topP.filter (! ·.isWithin 1) with
  | some x, _ => some (.temperature x)
  | none, some x => some (.topP x)
  | none, none => if r.messages.isEmpty then some .noMessages else none

end Request

/-! ## Answers -/

/-- One of the alternatives of an answer. -/
structure Choice where
  index : Nat
  message : Message
  finishReason : Option String
deriving DecidableEq, Repr

namespace Choice

/-- The members of a choice. -/
def fields : Fields Choice :=
  Choice.mk <$> .required "index" .word32 <*> .required "message" Message.read
    <*> .optional "finish_reason" .text

/-- Reads a choice. -/
def read : Reader Choice := fields.closed "struct Choice"

/-- A choice as data. -/
def toJson (c : Choice) : Json := .object [("index", .integer c.index),
  ("message", c.message.toJson), ("finish_reason", .ofOption .text c.finishReason)]

end Choice

/-- An answer. -/
structure Response where
  id : String
  object : String
  created : Nat
  model : String
  choices : List Choice
  usage : Option Usage
deriving DecidableEq, Repr

namespace Response

/-- The members of an answer. -/
def fields : Fields Response :=
  Response.mk <$> .required "id" .text <*> .required "object" .text
    <*> .required "created" .word64 <*> .required "model" .text
    <*> .required "choices" (.list Choice.read) <*> .optional "usage" Usage.read

/-- Reads an answer. -/
def read : Reader Response := fields.closed "struct ChatResponse"

/-- An answer as data. -/
def toJson (r : Response) : Json := .object <|
  [("id", .text r.id), ("object", .text r.object), ("created", .integer r.created),
    ("model", .text r.model), ("choices", .array (r.choices.map Choice.toJson))]
    ++ Json.member? "usage" Usage.toJson r.usage

end Response

/-! ## Fragments of streamed answers -/

/-- What a fragment adds to a message. -/
structure Delta where
  role : Option String
  content : Option String
deriving DecidableEq, Repr

namespace Delta

/-- The members of an addition to a message. -/
def fields : Fields Delta :=
  Delta.mk <$> .optional "role" .text <*> .optional "content" .text

/-- Reads an addition to a message. -/
def read : Reader Delta := fields.closed "struct Delta"

/-- An addition to a message as data. -/
def toJson (d : Delta) : Json :=
  .object (Json.member? "role" .text d.role ++ Json.member? "content" .text d.content)

end Delta

/-- What a fragment adds to one of the alternatives. -/
structure StreamChoice where
  index : Nat
  delta : Delta
  finishReason : Option String
deriving DecidableEq, Repr

namespace StreamChoice

/-- The members of a choice in a fragment. -/
def fields : Fields StreamChoice :=
  StreamChoice.mk <$> .required "index" .word32 <*> .required "delta" Delta.read
    <*> .optional "finish_reason" .text

/-- Reads a choice in a fragment. -/
def read : Reader StreamChoice := fields.closed "struct StreamChoice"

/-- A choice in a fragment as data. -/
def toJson (c : StreamChoice) : Json := .object [("index", .integer c.index),
  ("delta", c.delta.toJson), ("finish_reason", .ofOption .text c.finishReason)]

end StreamChoice

/-- A fragment of a streamed answer. -/
structure Chunk where
  id : String
  object : String
  created : Nat
  model : String
  choices : List StreamChoice
deriving DecidableEq, Repr

namespace Chunk

/-- The members of a fragment. -/
def fields : Fields Chunk :=
  Chunk.mk <$> .required "id" .text <*> .required "object" .text
    <*> .required "created" .word64 <*> .required "model" .text
    <*> .required "choices" (.list StreamChoice.read)

/-- Reads a fragment. -/
def read : Reader Chunk := fields.closed "struct ChatStreamChunk"

/-- A fragment as data. -/
def toJson (c : Chunk) : Json := .object [("id", .text c.id), ("object", .text c.object),
  ("created", .integer c.created), ("model", .text c.model),
  ("choices", .array (c.choices.map StreamChoice.toJson))]

/-- The fragment that adds a text, or tells why the answer ends. All fragments of an answer are
    given one time, that of the request, although each is made at a time of its own. -/
def delta (now : Nat) (id model : String) (content finishReason : Option String) : Chunk :=
  ⟨id, "chat.completion.chunk", now, model, [⟨0, ⟨none, content⟩, finishReason⟩]⟩

end Chunk

end Chat

end InferenceGateway
