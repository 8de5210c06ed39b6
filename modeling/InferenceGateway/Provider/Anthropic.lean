import InferenceGateway.Anthropic.Event
import InferenceGateway.Config.Basic
import InferenceGateway.EventStream.Reader

/-!
# The provider `anthropic`

A vendor with an interface of its own. Payloads and answers are converted.
-/

namespace InferenceGateway.Anthropic

/-- The address of the vendor. -/
def usualBase : String := "https://api.anthropic.com"

/-- The version of the interface. -/
def version : String := "2023-06-01"

/-- What an endpoint asks the vendor with. -/
structure Client where
  model : String
  key : String
  base : String

namespace Client

/-- The client of a model, which needs a key. -/
def ofConfig (m : ModelConfig) : Except GatewayError Client :=
  match m.settings.apiKey.filter (! ·.isEmpty) with
  | some key => .ok ⟨m.name, key, Provider.baseAddress m.settings.apiBase usualBase⟩
  | none => .error (.config (.missingKey "anthropic" m.name))

/-- The request to the vendor. -/
def request (c : Client) (r : Request) : Except TransportFault Http.Request :=
  Http.post (c.base ++ "/v1/messages")
    [("x-api-key", c.key), ("anthropic-version", version), ("content-type", "application/json")]
    r.toJson

/-- Asks for a single answer. -/
def ask (c : Client) (r : Request) : ProviderCall Response :=
  Provider.exchange vendor (c.request r) (Provider.decodeBody Response.read)

/-- Asks for a streamed answer. -/
def askStream {α : Type} (c : Client) (r : Request) (make : MakeChunk α) :
    ProviderCall (Fragments α) :=
  Provider.exchange vendor (c.request r) fun pieces complete =>
    .ok (fragments make "" (EventStream.dataOfPieces pieces (Provider.bodyFault complete) false))

/-- The provider of a client. It turns no texts into vectors. -/
def provider (c : Client) : Provider where
  name := "anthropic"
  supports type := type = .chat || type = .completions
  chat now r := Provider.convert (Response.toChat now) (c.ask (.ofChat c.model false r))
  chatStream now r :=
    c.askStream (.ofChat c.model true r) fun id text finish =>
      Chat.Chunk.delta now id c.model text finish
  completions now r :=
    Provider.convert (Response.toCompletions now) (c.ask (.ofCompletions c.model false r))
  completionsStream now r :=
    c.askStream (.ofCompletions c.model true r) fun id text finish =>
      Completions.Chunk.delta now id c.model text finish
  embeddings _ _ := Provider.refuse "anthropic" .embeddings

end Client

end InferenceGateway.Anthropic
