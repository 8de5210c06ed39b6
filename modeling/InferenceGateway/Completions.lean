import InferenceGateway.Chat

/-!
# Completions

The requests, the answers and the fragments of streamed answers of endpoints that
complete a text.
-/

namespace InferenceGateway.Completions

open Document Numeral

/-- The payload of a request. Members beyond the known ones are kept as they are. -/
structure Request where
  prompt : String
  temperature : Option Binary
  maxTokens : Option Nat
  stop : Option (List String)
  stream : Bool
  extra : List (String × Json)

namespace Request

/-- The members of a request. -/
def fields : Fields (List (String × Json) → Request) :=
  Request.mk <$> .required "prompt" .text <*> .optional "temperature" .single
    <*> .optional "max_tokens" .word32 <*> .optional "stop" (.list .text)
    <*> .defaulting "stream" .bool false

/-- Reads a request. -/
def read : Reader Request := fields.keeping "struct CompletionsRequest"

/-- A request as data. -/
def toJson (r : Request) : Json := .object <|
  [("prompt", .text r.prompt)]
    ++ Json.member? "temperature" .single r.temperature
    ++ Json.member? "max_tokens" (fun (n : Nat) => .integer n) r.maxTokens
    ++ Json.member? "stop" (fun ss => .array (ss.map .text)) r.stop
    ++ [("stream", .bool r.stream)]
    ++ r.extra

end Request

/-- One of the alternatives of an answer. -/
structure Choice where
  index : Nat
  text : String
  finishReason : Option String
deriving DecidableEq, Repr

namespace Choice

/-- The members of a choice. -/
def fields : Fields Choice :=
  Choice.mk <$> .required "index" .word32 <*> .required "text" .text
    <*> .optional "finish_reason" .text

/-- Reads a choice. -/
def read : Reader Choice := fields.closed "struct CompletionChoice"

/-- A choice as data. -/
def toJson (c : Choice) : Json := .object [("index", .integer c.index), ("text", .text c.text),
  ("finish_reason", .ofOption .text c.finishReason)]

end Choice

/-- An answer. -/
structure Response where
  id : String
  object : String
  created : Nat
  model : String
  choices : List Choice
  usage : Option Usage
deriving DecidableEq, Repr

namespace Response

/-- The members of an answer. -/
def fields : Fields Response :=
  Response.mk <$> .required "id" .text <*> .required "object" .text
    <*> .required "created" .word64 <*> .required "model" .text
    <*> .required "choices" (.list Choice.read) <*> .optional "usage" Usage.read

/-- Reads an answer. -/
def read : Reader Response := fields.closed "struct CompletionsResponse"

/-- An answer as data. -/
def toJson (r : Response) : Json := .object <|
  [("id", .text r.id), ("object", .text r.object), ("created", .integer r.created),
    ("model", .text r.model), ("choices", .array (r.choices.map Choice.toJson))]
    ++ Json.member? "usage" Usage.toJson r.usage

end Response

/-- What a fragment adds to one of the alternatives. -/
structure StreamChoice where
  index : Nat
  text : Option String
  finishReason : Option String
deriving DecidableEq, Repr

namespace StreamChoice

/-- The members of a choice in a fragment. -/
def fields : Fields StreamChoice :=
  StreamChoice.mk <$> .required "index" .word32 <*> .optional "text" .text
    <*> .optional "finish_reason" .text

/-- Reads a choice in a fragment. -/
def read : Reader StreamChoice := fields.closed "struct CompletionStreamChoice"

/-- A choice in a fragment as data. -/
def toJson (c : StreamChoice) : Json := .object <|
  [("index", .integer c.index)] ++ Json.member? "text" .text c.text
    ++ [("finish_reason", .ofOption .text c.finishReason)]

end StreamChoice

/-- A fragment of a streamed answer. -/
structure Chunk where
  id : String
  object : String
  created : Nat
  model : String
  choices : List StreamChoice
deriving DecidableEq, Repr

namespace Chunk

/-- The members of a fragment. -/
def fields : Fields Chunk :=
  Chunk.mk <$> .required "id" .text <*> .required "object" .text
    <*> .required "created" .word64 <*> .required "model" .text
    <*> .required "choices" (.list StreamChoice.read)

/-- Reads a fragment. -/
def read : Reader Chunk := fields.closed "struct CompletionsStreamChunk"

/-- A fragment as data. -/
def toJson (c : Chunk) : Json := .object [("id", .text c.id), ("object", .text c.object),
  ("created", .integer c.created), ("model", .text c.model),
  ("choices", .array (c.choices.map StreamChoice.toJson))]

/-- The fragment that adds a text, or tells why the answer ends. All fragments of an answer are
    given one time, that of the request, although each is made at a time of its own. -/
def delta (now : Nat) (id model : String) (text finishReason : Option String) : Chunk :=
  ⟨id, "text_completion_chunk", now, model, [⟨0, text, finishReason⟩]⟩

end Chunk

end InferenceGateway.Completions
