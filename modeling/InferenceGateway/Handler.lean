import InferenceGateway.Provider

/-!
# Handlers

What answers the requests to an endpoint: a provider, for one type of endpoint. A payload is
read and checked first; only an accepted payload reaches the provider. It is answered at
once or with a stream, as the payload asks, where the type can be streamed.
-/

namespace InferenceGateway

/-- A provider for a type of endpoint. -/
structure Handler where
  type : EndpointType
  provider : Provider

/-- The answer to a payload. -/
inductive Invocation where
  | complete (value : Json)
  | stream (fragments : Fragments Json)

namespace Handler

/-- The handler of a type of endpoint, if the provider supports it. -/
def build (type : EndpointType) (provider : Provider) : Except ConfigFault Handler :=
  if provider.supports type then .ok ⟨type, provider⟩
  else .error (.unsupportedType provider.name type)

/-- How a handler is displayed. -/
def display (h : Handler) : String :=
  "Handler \x7b task: " ++ h.type.label ++ ", provider: " ++ Text.quoted h.provider.name ++ " \x7d"

/-- The payload of a body. -/
def payload {α : Type} (r : Document.Reader α) (body : Bytes) : Except Refusal α :=
  (Json.parse r body).mapError .payload

/-- A refused payload. -/
def refuse (e : Refusal) : ProviderCall Invocation := .done (.error (.badRequest e))

/-- A single answer as data. -/
def complete {α : Type} (write : α → Json) (c : ProviderCall α) : ProviderCall Invocation :=
  Provider.convert (fun a => .complete (write a).canonical) c

/-- A streamed answer as data. -/
def streamed {α : Type} (write : α → Json) (c : ProviderCall (Fragments α)) :
    ProviderCall Invocation :=
  Provider.convert
    (fun fragments => .stream (fragments.map fun f => f.map fun a => (write a).canonical)) c

/-- Whether a payload that asks for a stream or not is answered with one. -/
def streams (h : Handler) (requested : Bool) : Bool := requested && h.type.canStream

/-- Answers the payload in a body. The time is that of the request, and it is the only one: the
    fragments of a stream are given the same time, whenever they come. -/
def invoke (h : Handler) (now : Nat) (body : Bytes) : ProviderCall Invocation :=
  match h.type with
  | .chat =>
    match payload Chat.Request.read body with
    | .error e => refuse e
    | .ok r =>
      match r.refusal? with
      | some e => refuse e
      | none =>
        if h.streams r.stream then streamed Chat.Chunk.toJson (h.provider.chatStream now r)
        else complete Chat.Response.toJson (h.provider.chat now r)
  | .completions =>
    match payload Completions.Request.read body with
    | .error e => refuse e
    | .ok r =>
      if h.streams r.stream then
        streamed Completions.Chunk.toJson (h.provider.completionsStream now r)
      else complete Completions.Response.toJson (h.provider.completions now r)
  | .embeddings =>
    match payload Embeddings.Request.read body with
    | .error e => refuse e
    | .ok r => complete Embeddings.Response.toJson (h.provider.embeddings now r)

end Handler

end InferenceGateway
