import InferenceGateway.Provider.Anthropic
import InferenceGateway.Provider.OpenAi

/-!
# Resolving providers

Which providers there are: a constructor for each identifier. Constructors are functions of
the configuration of a model, so an endpoint gets the same provider however often it is
resolved.
-/

namespace InferenceGateway

/-- Makes the provider of a model, or tells why it cannot. -/
abbrev ProviderConstructor := ModelConfig → Except GatewayError Provider

/-- The constructors of providers, by their identifiers. -/
structure Resolver where
  constructors : List (String × ProviderConstructor)

namespace Resolver

/-- No providers. -/
def empty : Resolver := ⟨[]⟩

/-- One more provider, in place of one with the same identifier. The identifiers are kept in
    their order. -/
def register (r : Resolver) (id : String) (make : ProviderConstructor) : Resolver :=
  ⟨insertMember id make r.constructors⟩

/-- The providers that are always there. -/
def builtin : Resolver :=
  (empty.register "openai" fun m => OpenAi.Client.provider <$> OpenAi.Client.ofConfig m).register
    "anthropic" fun m => Anthropic.Client.provider <$> Anthropic.Client.ofConfig m

/-- The provider of a model. -/
def resolve (r : Resolver) (m : ModelConfig) : Except GatewayError Provider :=
  match r.constructors.lookup m.provider with
  | some make => make m
  | none => .error (.config (.unknownProvider m.provider))

/-- The identifiers in order. -/
def ids (r : Resolver) : List String := r.constructors.map (·.1)

/-- How a resolver is displayed. -/
def display (r : Resolver) : String :=
  "ProviderResolver \x7b providers: [" ++ ", ".intercalate (r.ids.map Text.quoted) ++ "] \x7d"

end Resolver

end InferenceGateway
