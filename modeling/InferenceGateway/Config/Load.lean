import InferenceGateway.Config.Basic
import InferenceGateway.Config.Placeholder
import InferenceGateway.Yaml.Node

/-!
# Loading a configuration

A configuration is a YAML document. Its placeholders are replaced, it is read, and its
endpoints are checked in order: their names can stand in a path and differ, and each has a
model and a provider.
-/

namespace InferenceGateway

open Document

/-- The contents of files by their paths, or why they cannot be read. -/
abbrev Files := String → Except String Bytes

namespace GatewayConfig

/-- Whether a character may stand in the name of an endpoint. -/
def isNameChar (c : Char) : Bool :=
  c.isAlphanum || c == '.' || c == '_' || c == '~' || c == '-'

/-- Whether a text can be the name of an endpoint. -/
def isName (s : String) : Bool := !s.isEmpty && s.toList.all isNameChar

/-- The fault of the first endpoint that has one, after endpoints with some names. -/
def firstFault? (seen : List String) : List EndpointConfig → Option ConfigFault
  | [] => none
  | e :: rest =>
    if !isName e.name then some (.endpointName e.name)
    else if seen.contains e.name then some (.duplicateEndpoint e.name)
    else if e.model.name.isEmpty then some (.emptyModelName e.name)
    else if e.model.provider.isEmpty then some (.emptyProvider e.name)
    else firstFault? (e.name :: seen) rest

/-- The configuration that a document means. -/
def ofDocument (env : Environment) (document : Node) : Except GatewayError GatewayConfig := do
  let document ← (Placeholder.resolve env document).mapError .config
  let config ← (read .yaml document).mapError .yaml
  match firstFault? [] config.endpoints with
  | some fault => throw (.config fault)
  | none => return config

/-- The configuration of a text. -/
def parse (env : Environment) (text : String) : Except GatewayError GatewayConfig :=
  match Yaml.parse text with
  | some document => ofDocument env document
  | none => throw (.yaml .malformed)

/-- The text of a file. -/
def readText (files : Files) (path : String) : Except ConfigFault String := do
  let bytes ← (files path).mapError (.unreadableFile path)
  (Text.Utf8.decode bytes).mapError fun _ =>
    .unreadableFile path "stream did not contain valid UTF-8"

/-- The configuration of a file. -/
def load (env : Environment) (files : Files) (path : String) :
    Except GatewayError GatewayConfig := do
  parse env (← (readText files path).mapError .config)

end GatewayConfig

end InferenceGateway
