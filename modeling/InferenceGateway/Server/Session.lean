import InferenceGateway.Server.Answer

/-!
# Sessions

What happens to a gateway while it serves: requests are answered, and configurations are
taken over or refused. A session is a row of such actions; each leaves a gateway for the next
one. Only what is counted and which routes are served can change.
-/

namespace InferenceGateway.Server

/-- Answers a request, given the replies to the requests that are sent to a provider for it, and
    counts what happens. -/
def respond (g : Gateway) (now : Nat) (r : Request) (replies : List Http.Reply) :
    Answer × Gateway :=
  let outcome := (answer g now r).result replies
  (outcome.answer, g.count outcome.counts)

/-- Something that happens to a gateway. -/
inductive Action where
  | request (now : Nat) (request : Request) (replies : List Http.Reply)
  | apply (config : GatewayConfig)
  | reload (env : Environment) (files : Files)

/-- The gateway after an action. -/
def step (g : Gateway) : Action → Gateway
  | .request now r replies => (respond g now r replies).2
  | .apply config => (g.apply config).2
  | .reload env files => (g.reload env files).2

/-- The gateway after a session. -/
def run (g : Gateway) (actions : List Action) : Gateway := actions.foldl step g

end InferenceGateway.Server
