import InferenceGateway.Handler
import InferenceGateway.Provider.Resolver

/-!
# The table of routes

The endpoints that are served, in the order of the configuration, each compiled to a route:
its configuration and a handler. Their names differ. A table is only ever replaced as a
whole, by the table of a configuration of which every endpoint is sound.
-/

namespace InferenceGateway

/-- An endpoint with its handler. -/
structure Route where
  name : String
  type : EndpointType
  model : ModelConfig
  handler : Handler

/-- The route of an endpoint. -/
def Route.compile (resolver : Resolver) (e : EndpointConfig) : Except GatewayError Route := do
  let provider ← resolver.resolve e.model
  match Handler.build e.type provider with
  | .ok handler => return ⟨e.name, e.type, e.model, handler⟩
  | .error fault => throw (.config (.registration e.name fault))

/-- The first name that repeats one before it, or one of those `seen`. -/
def firstRepeated? (seen : List String) : List String → Option String
  | [] => none
  | n :: rest => if n ∈ seen then some n else firstRepeated? (n :: seen) rest

/-- Names of which none is repeated differ, from one another and from those seen. -/
theorem firstRepeated?_eq_none {seen names : List String} (h : firstRepeated? seen names = none) :
    names.Nodup ∧ ∀ n ∈ names, n ∉ seen := by
  induction names generalizing seen with
  | nil => simp
  | cons n rest ih =>
    simp only [firstRepeated?] at h
    split at h
    · cases h
    · rename_i hn
      obtain ⟨nodup, fresh⟩ := ih h
      refine ⟨List.nodup_cons.2 ⟨fun hm => fresh n hm List.mem_cons_self, nodup⟩, ?_⟩
      intro m hm
      rcases List.mem_cons.1 hm with rfl | hm
      · exact hn
      · exact fun hs => fresh m hm (List.mem_cons_of_mem _ hs)

/-- A table of routes. -/
structure Table where
  /-- The routes in order. -/
  routes : List Route
  nodup : (routes.map Route.name).Nodup

namespace Table

/-- No routes. -/
def empty : Table := ⟨[], List.nodup_nil⟩

/-- The table of routes whose names differ. -/
def ofRoutes (routes : List Route) : Except ConfigFault Table :=
  match h : firstRepeated? [] (routes.map Route.name) with
  | some name => .error (.duplicateEndpoint name)
  | none => .ok ⟨routes, (firstRepeated?_eq_none h).1⟩

/-- The table of a configuration. The first endpoint that cannot be compiled is the error. -/
def ofConfig (resolver : Resolver) (config : GatewayConfig) : Except GatewayError Table := do
  let routes ← config.endpoints.mapM (Route.compile resolver)
  (ofRoutes routes).mapError .config

/-- Takes over other routes, all of them or none. Routes of which two have one name are refused, and
    the table stays as it is. -/
def replaceAll (t : Table) (routes : List Route) : Except GatewayError Unit × Table :=
  match ofRoutes routes with
  | .ok new => (.ok (), new)
  | .error fault => (.error (.config fault), t)

/-- Takes over the routes of a configuration. If one of its endpoints cannot be compiled the table
    stays as it is. -/
def load (t : Table) (resolver : Resolver) (config : GatewayConfig) :
    Except GatewayError Unit × Table :=
  match config.endpoints.mapM (Route.compile resolver) with
  | .ok routes => t.replaceAll routes
  | .error e => (.error e, t)

/-- The route of a name. -/
def get? (t : Table) (name : String) : Option Route := t.routes.find? (·.name = name)

/-- The names in order. -/
def names (t : Table) : List String := t.routes.map Route.name

/-- The number of routes. -/
def size (t : Table) : Nat := t.routes.length

end Table

end InferenceGateway
