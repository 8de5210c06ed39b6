import InferenceGateway.Config.Load
import InferenceGateway.Directory
import InferenceGateway.Metrics

/-!
# The gateway

A gateway serves a table of routes, knows where its configuration comes from, and counts
what happens. A new configuration is taken over as a whole, or refused; then the gateway
goes on with the table that it has.
-/

namespace InferenceGateway

/-- A gateway. -/
structure Gateway where
  resolver : Resolver
  table : Table
  /-- The file of its configuration, if it comes from one. -/
  path : Option String
  metrics : Metrics

namespace Gateway

/-- The gateway of a configuration. -/
def ofConfig (resolver : Resolver) (config : GatewayConfig) : Except GatewayError Gateway :=
  (Table.ofConfig resolver config).map fun table => ⟨resolver, table, none, .zero⟩

/-- The gateway of a configuration file. -/
def ofFile (resolver : Resolver) (env : Environment) (files : Files) (path : String) :
    Except GatewayError Gateway := do
  let config ← GatewayConfig.load env files path
  let g ← ofConfig resolver config
  return { g with path := some path }

/-- What clients can learn of the routes. -/
def directory (g : Gateway) : Directory := .ofTable g.table

/-- Counts events. -/
def count (g : Gateway) (counts : List Count) : Gateway :=
  { g with metrics := g.metrics.recordAll counts }

/-- Takes over a configuration, or tells why it is refused. Both are counted. -/
def apply (g : Gateway) (config : GatewayConfig) : Except GatewayError Unit × Gateway :=
  match Table.ofConfig g.resolver config with
  | .ok table => (.ok (), { g with table := table }.count [.reload true])
  | .error e => (.error e, g.count [.reload false])

/-- Reads the configuration file again and takes it over. A file that holds no configuration
    is not counted, and a gateway without a file stays as it is. -/
def reload (g : Gateway) (env : Environment) (files : Files) :
    Except GatewayError Unit × Gateway :=
  match g.path with
  | none => (.ok (), g)
  | some path =>
    match GatewayConfig.load env files path with
    | .error e => (.error e, g)
    | .ok config => g.apply config

end Gateway

end InferenceGateway
