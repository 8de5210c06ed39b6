import InferenceGateway.Document.Record
import InferenceGateway.EndpointType

/-!
# Configurations

What a gateway is configured with: its endpoints, and for each of them the model and the
provider that answers its requests. Some fields have an older spelling as well.
-/

namespace InferenceGateway

open Document

/-- What a provider is constructed from. Settings beyond the known ones are kept. -/
structure ProviderSettings where
  apiKey : Option String
  apiBase : Option String
  extra : List (String × Json)
deriving Inhabited

namespace ProviderSettings

/-- No settings. -/
def empty : ProviderSettings := ⟨none, none, []⟩

/-- The members of settings. -/
def fields : Fields (List (String × Json) → ProviderSettings) :=
  ProviderSettings.mk
    <$> .optionalUnder "api_key" ["openai_api_key", "anthropic_api_key"] .text
    <*> .optionalUnder "api_base" ["openai_api_base"] .text

/-- Reads settings. -/
def read : Reader ProviderSettings := fields.keeping "struct ProviderSettings"

/-- Settings as data. -/
def toJson (s : ProviderSettings) : Json := .object <|
  Json.member? "api_key" .text s.apiKey ++ Json.member? "api_base" .text s.apiBase ++ s.extra

end ProviderSettings

/-- A model and the provider that runs it. -/
structure ModelConfig where
  name : String
  provider : String
  settings : ProviderSettings
deriving Inhabited

namespace ModelConfig

/-- The members of a model. -/
def fields : Fields ModelConfig :=
  ModelConfig.mk <$> .required "name" .text <*> .required "provider" .text
    <*> .defaulting "config" ProviderSettings.read .empty

/-- Reads a model. -/
def read : Reader ModelConfig := fields.closed "struct ModelConfig"

/-- A model as data. -/
def toJson (m : ModelConfig) : Json := .object [("name", .text m.name),
  ("provider", .text m.provider), ("config", m.settings.toJson)]

end ModelConfig

/-- An endpoint. -/
structure EndpointConfig where
  name : String
  type : EndpointType
  model : ModelConfig
deriving Inhabited

namespace EndpointConfig

/-- The members of an endpoint. -/
def fields : Fields EndpointConfig :=
  EndpointConfig.mk <$> .required "name" .text
    <*> .requiredUnder "endpoint_type" ["route_type"] EndpointType.read
    <*> .required "model" ModelConfig.read

/-- Reads an endpoint. -/
def read : Reader EndpointConfig := fields.closed "struct EndpointConfig"

/-- An endpoint as data. -/
def toJson (e : EndpointConfig) : Json := .object [("name", .text e.name),
  ("endpoint_type", e.type.toJson), ("model", e.model.toJson)]

end EndpointConfig

/-- A configuration: the endpoints in order. -/
structure GatewayConfig where
  endpoints : List EndpointConfig
deriving Inhabited

namespace GatewayConfig

/-- The members of a configuration. -/
def fields : Fields GatewayConfig :=
  GatewayConfig.mk <$> .requiredUnder "endpoints" ["routes"] (.list EndpointConfig.read)

/-- Reads a configuration. -/
def read : Reader GatewayConfig := fields.closed "struct GatewayConfig"

/-- A configuration as data. -/
def toJson (c : GatewayConfig) : Json :=
  .object [("endpoints", .array (c.endpoints.map EndpointConfig.toJson))]

end GatewayConfig

end InferenceGateway
