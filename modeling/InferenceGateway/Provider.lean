import InferenceGateway.Completions
import InferenceGateway.Embeddings
import InferenceGateway.Http
import InferenceGateway.Json.Tree

/-!
# Providers

What answers the requests of an endpoint. A provider has a name, says which types of
endpoints it supports, and offers an operation for each way to be asked. An operation that
it does not offer is refused (`Provider.unsupporting`).
-/

namespace InferenceGateway

/-- A streamed answer: its fragments, and errors in their places. -/
abbrev Fragments (α : Type) := List (Except GatewayError α)

/-- An operation of a provider. -/
abbrev ProviderCall (α : Type) := Call (Except GatewayError α)

/-- A provider. The operations are given the time at which they happen. -/
structure Provider where
  name : String
  supports : EndpointType → Bool
  chat : (now : Nat) → Chat.Request → ProviderCall Chat.Response
  chatStream : (now : Nat) → Chat.Request → ProviderCall (Fragments Chat.Chunk)
  completions : (now : Nat) → Completions.Request → ProviderCall Completions.Response
  completionsStream :
    (now : Nat) → Completions.Request → ProviderCall (Fragments Completions.Chunk)
  embeddings : (now : Nat) → Embeddings.Request → ProviderCall Embeddings.Response

namespace Provider

/-- An operation that is refused. -/
def refuse {α : Type} (name : String) (type : EndpointType) : ProviderCall α :=
  .done (.error (.unsupportedCall name type))

/-- A provider that offers no operation. -/
def unsupporting (name : String) (supports : EndpointType → Bool) : Provider where
  name := name
  supports := supports
  chat _ _ := refuse name .chat
  chatStream _ _ := refuse name .chat
  completions _ _ := refuse name .completions
  completionsStream _ _ := refuse name .completions
  embeddings _ _ := refuse name .embeddings

/-- The operation that sends a request to a provider's vendor, unless the request cannot be
    put together, and reads the body of a successful reply. -/
def exchange {α : Type} (vendor : String) (request : Except TransportFault Http.Request)
    (read : List Bytes → Bool → Except GatewayError α) : ProviderCall α :=
  match request with
  | .error fault => .done (.error (.transport fault))
  | .ok request => .send request fun reply => .done do
    let (pieces, complete) ← reply.success vendor request.url
    read pieces complete

/-- An operation whose answer is converted. -/
def convert {α β : Type} (f : α → β) (c : ProviderCall α) : ProviderCall β :=
  c.map fun answer => answer.map f

/-- The value of a complete body. -/
def decodeBody {α : Type} (r : Document.Reader α) (pieces : List Bytes) (complete : Bool) :
    Except GatewayError α :=
  match complete, Json.parse r pieces.flatten with
  | true, .ok a => .ok a
  | _, _ => .error (.transport .undecodable)

/-- The fault of a body that breaks off. -/
def bodyFault (complete : Bool) : Option TransportFault :=
  if complete then none else some .undecodable

/-- The value of the data of an event. Data of the wrong form is the vendor's fault. -/
def decodeFragment {α : Type} (vendor : String) (r : Document.Reader α) (data : String) :
    Except GatewayError α :=
  (Json.parse r (Text.Utf8.encode data)).mapError fun e => .vendor 502 (.fragment vendor e)

/-- The base address of a provider without slashes at its end, or the usual one if none is
    given. -/
def baseAddress (given : Option String) (usual : String) : String :=
  let base := match given with
    | some s => if s.isEmpty then usual else s
    | none => usual
  String.ofList (base.toList.reverse.dropWhile (· = '/')).reverse

end Provider

end InferenceGateway
