import InferenceGateway.Document.Reader

/-!
# Endpoint types

What an endpoint can be asked for.
-/

namespace InferenceGateway

open Document

/-- The type of an endpoint. -/
inductive EndpointType where
  | chat
  | completions
  | embeddings
deriving DecidableEq, Repr, Inhabited

namespace EndpointType

/-- The identifier of a type. -/
def id : EndpointType → String
  | chat => "llm/v1/chat"
  | completions => "llm/v1/completions"
  | embeddings => "llm/v1/embeddings"

/-- All types. -/
def all : List EndpointType := [chat, completions, embeddings]

/-- Whether answers can be streamed. -/
def canStream : EndpointType → Bool
  | embeddings => false
  | _ => true

/-- The name of a type in the display of a handler. -/
def label : EndpointType → String
  | chat => "Chat"
  | completions => "Completions"
  | embeddings => "Embeddings"

/-- Reads the identifier of a type. -/
def read : Reader EndpointType := .enumeration (all.map fun t => (t.id, t))

/-- The identifier as data. -/
def toJson (t : EndpointType) : Json := .text t.id

end EndpointType

end InferenceGateway
