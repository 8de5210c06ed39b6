import InferenceGateway.Document.Record

/-!
# Embeddings

The requests and the answers of endpoints that turn texts into vectors.
-/

namespace InferenceGateway.Embeddings

open Document Numeral

/-- What is to be embedded: one text, or several. -/
inductive Input where
  | single (text : String)
  | batch (texts : List String)
deriving DecidableEq, Repr

namespace Input

/-- Reads a text or a list of texts. The value must be readable as a whole before its shape
    matters. -/
def read : Reader Input := fun d n => do
  n.check
  match Reader.text d n, Reader.list Reader.text d n with
  | .ok s, _ => pure (.single s)
  | _, .ok ss => pure (.batch ss)
  | _, _ => throw (.noShape "EmbeddingInput")

/-- An input as data. -/
def toJson : Input → Json
  | single s => .text s
  | batch ss => .array (ss.map .text)

end Input

/-- The payload of a request. Members beyond the known ones are kept as they are; there is
    no choice of streaming. -/
structure Request where
  input : Input
  extra : List (String × Json)

namespace Request

/-- The members of a request. -/
def fields : Fields (List (String × Json) → Request) :=
  Request.mk <$> .required "input" Input.read

/-- Reads a request. -/
def read : Reader Request := fields.keeping "struct EmbeddingsRequest"

/-- A request as data. -/
def toJson (r : Request) : Json := .object (("input", r.input.toJson) :: r.extra)

end Request

/-- The vector of one text. -/
structure Datum where
  object : String
  embedding : List Binary
  index : Nat
deriving DecidableEq, Repr

namespace Datum

/-- The members of a vector. -/
def fields : Fields Datum :=
  Datum.mk <$> .required "object" .text <*> .required "embedding" (.list .single)
    <*> .required "index" .word32

/-- Reads a vector. -/
def read : Reader Datum := fields.closed "struct EmbeddingData"

/-- A vector as data. -/
def toJson (d : Datum) : Json := .object [("object", .text d.object),
  ("embedding", .array (d.embedding.map .single)), ("index", .integer d.index)]

end Datum

/-- A count of tokens. -/
structure Usage where
  promptTokens : Nat
  totalTokens : Nat
deriving DecidableEq, Repr

namespace Usage

/-- The members of counts of tokens. -/
def fields : Fields Usage :=
  Usage.mk <$> .required "prompt_tokens" .word32 <*> .required "total_tokens" .word32

/-- Reads counts of tokens. -/
def read : Reader Usage := fields.closed "struct EmbeddingsUsage"

/-- Counts of tokens as data. -/
def toJson (u : Usage) : Json := .object [("prompt_tokens", .integer u.promptTokens),
  ("total_tokens", .integer u.totalTokens)]

end Usage

/-- An answer. -/
structure Response where
  object : String
  data : List Datum
  model : String
  usage : Option Usage
deriving DecidableEq, Repr

namespace Response

/-- The members of an answer. -/
def fields : Fields Response :=
  Response.mk <$> .required "object" .text <*> .required "data" (.list Datum.read)
    <*> .required "model" .text <*> .optional "usage" Usage.read

/-- Reads an answer. -/
def read : Reader Response := fields.closed "struct EmbeddingsResponse"

/-- An answer as data. -/
def toJson (r : Response) : Json := .object <|
  [("object", .text r.object), ("data", .array (r.data.map Datum.toJson)),
    ("model", .text r.model)]
    ++ Json.member? "usage" Usage.toJson r.usage

end Response

end InferenceGateway.Embeddings
