import InferenceGateway.Config.Basic
import InferenceGateway.EventStream.Reader
import InferenceGateway.Json.Tree
import InferenceGateway.Provider

/-!
# The provider `openai`

A vendor whose interface is that of the gateway itself. A payload is passed on as it is,
with the model of the endpoint and the way of answering put in, and the answer is passed
back.
-/

namespace InferenceGateway.OpenAi

/-- The address of the vendor. -/
def usualBase : String := "https://api.openai.com/v1"

/-- The name of the vendor in messages. -/
def vendor : String := "OpenAI"

/-- What an endpoint asks the vendor with. -/
structure Client where
  model : String
  key : String
  base : String

namespace Client

/-- The client of a model, which needs a key. -/
def ofConfig (m : ModelConfig) : Except GatewayError Client :=
  match m.settings.apiKey.filter (! ·.isEmpty) with
  | some key => .ok ⟨m.name, key, Provider.baseAddress m.settings.apiBase usualBase⟩
  | none => .error (.config (.missingKey "openai" m.name))

/-- The body for the vendor: the payload as data, with the model and the way of answering
    set, whatever it says of them. Without a way of answering there is none in it. -/
def body (c : Client) (payload : Json) (stream : Option Bool) : Json :=
  let j := payload.canonical.set "model" (.text c.model)
  match stream with
  | some stream => j.set "stream" (.bool stream)
  | none => j.unset "stream"

/-- The request to a path of the vendor. -/
def request (c : Client) (path : String) (body : Json) : Except TransportFault Http.Request :=
  Http.post (c.base ++ "/" ++ path)
    [("authorization", "Bearer " ++ c.key), ("content-type", "application/json")] body

/-- Asks for a single answer. -/
def ask {α : Type} (c : Client) (path : String) (body : Json) (r : Document.Reader α) :
    ProviderCall α :=
  Provider.exchange vendor (c.request path body) (Provider.decodeBody r)

/-- The fragments of a streamed body. A malformed one does not end the stream. -/
def fragments {α : Type} (r : Document.Reader α) (pieces : List Bytes) (complete : Bool) :
    Fragments α :=
  (EventStream.dataOfPieces pieces (Provider.bodyFault complete) true).map fun item =>
    item.bind (Provider.decodeFragment vendor r)

/-- Asks for a streamed answer. -/
def askStream {α : Type} (c : Client) (path : String) (body : Json) (r : Document.Reader α) :
    ProviderCall (Fragments α) :=
  Provider.exchange vendor (c.request path body) fun pieces complete =>
    .ok (fragments r pieces complete)

/-- The provider of a client. -/
def provider (c : Client) : Provider where
  name := "openai"
  supports _ := true
  chat _ r := c.ask "chat/completions" (c.body r.toJson (some false)) Chat.Response.read
  chatStream _ r :=
    c.askStream "chat/completions" (c.body r.toJson (some true)) Chat.Chunk.read
  completions _ r :=
    c.ask "completions" (c.body r.toJson (some false)) Completions.Response.read
  completionsStream _ r :=
    c.askStream "completions" (c.body r.toJson (some true)) Completions.Chunk.read
  embeddings _ r := c.ask "embeddings" (c.body r.toJson none) Embeddings.Response.read

end Client

end InferenceGateway.OpenAi
