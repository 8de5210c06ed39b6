import InferenceGateway.EventStream.Writer
import InferenceGateway.Gateway
import InferenceGateway.Server.Target

/-!
# Answers to requests

What the gateway answers to a request, and what it counts on the way. Only an invocation of
an endpoint that exists is counted, and only such a request can reach a provider.
-/

namespace InferenceGateway.Server

/-- A request. -/
structure Request where
  method : String
  path : String
  query : Option String
  /-- The body, or why it cannot be read. -/
  body : Except String Bytes

/-- An answer. -/
structure Answer where
  status : Nat
  /-- The headers, with their names in lower case. -/
  headers : List (String × String)
  body : String
deriving DecidableEq, Repr

/-- An answer, and what is counted when it is given. -/
structure Outcome where
  answer : Answer
  counts : List Count

namespace Answer

/-- An answer with a JSON body. -/
def ofJson (status : Nat) (body : Json) : Answer :=
  ⟨status, [("content-type", "application/json")], body.print⟩

/-- The answer to a request that meets an error. -/
def ofError (e : GatewayError) : Answer := ofJson e.status e.detail

/-- The answer that gives a value, or tells an error. -/
def ofResult {α : Type} (write : α → Json) : Except GatewayError α → Answer
  | .ok a => ofJson 200 (write a)
  | .error e => ofError e

/-- The answer that is streamed. -/
def ofStream (fragments : Fragments Json) : Answer where
  status := 200
  headers := [("content-type", "text/event-stream"), ("cache-control", "no-cache"),
    ("x-accel-buffering", "no")]
  body := String.join (EventStream.frames fragments)

/-- The gateway is there. -/
def healthy : Answer := ofJson 200 (.object [("status", .text "OK")])

/-- The counters. -/
def counters (m : Metrics) : Answer :=
  ⟨200, [("content-type", "text/plain; version=0.0.4")], m.exportText⟩

/-- There is nothing here. -/
def notFound : Answer := ofJson 404 (.object [("detail", .text "Not Found")])

/-- The path exists under another method. -/
def methodNotAllowed (allow : String) : Answer :=
  let a := ofJson 405 (.object [("detail", .text "Method Not Allowed")])
  { a with headers := a.headers ++ [("allow", allow)] }

/-- The body that is sent in answer to a method. Some answers have none. -/
def sentBody (a : Answer) (method : String) : String :=
  if method = "HEAD" || a.status < 200 || a.status = 204 || a.status = 304 then "" else a.body

end Answer

/-- The name in a segment of a path. -/
def decodeName (segment : String) : Except GatewayError String :=
  (Text.decodeSegment segment).mapError fun fault => .badRequest (.nameEncoding fault)

/-- The name of the parameter with a page token. -/
def tokenParameter : String := "page_token"

/-- The page token in a query. -/
def pageToken (query : Option String) : Except GatewayError (Option String) :=
  match ((Text.Form.parameters (query.getD "")).filter (·.1 = tokenParameter)).map (·.2) with
  | [] => .ok none
  | [token] => .ok (some token)
  | _ => .error (.badRequest (.repeatedParameter tokenParameter))

/-- What comes of an invocation. -/
def Outcome.ofInvocation : Except GatewayError Invocation → Outcome
  | .ok (.complete value) => ⟨.ofJson 200 value, [.success]⟩
  | .ok (.stream fragments) =>
    ⟨.ofStream fragments,
      .stream :: if (EventStream.firstError? fragments).isSome then [.streamError] else []⟩
  | .error e => ⟨.ofError e, [.failure]⟩

/-- An answer that is given at once and not counted. -/
def reply (a : Answer) : Call Outcome := .done ⟨a, []⟩

/-- Answers the invocation of an endpoint. -/
def invoke (g : Gateway) (now : Nat) (name : String) (body : Except String Bytes) :
    Call Outcome :=
  match g.table.get? name with
  | none => reply (.ofError (.endpointNotFound name))
  | some r =>
    match body with
    | .error reason => .done (.ofInvocation (.error (.badRequest (.unreadableBody reason))))
    | .ok body => (r.handler.invoke now body).map .ofInvocation

/-- Answers a request. -/
def answer (g : Gateway) (now : Nat) (r : Request) : Call Outcome :=
  match Target.resolve r.method r.path with
  | .health => reply .healthy
  | .metrics => reply (.counters g.metrics)
  | .invoke segment =>
    match decodeName segment with
    | .ok name => invoke g now name r.body
    | .error e => reply (.ofError e)
  | .listEndpoints => reply <| .ofResult (Listing.toJson "endpoints" Endpoint.toJson) <|
      (pageToken r.query).bind g.directory.listEndpoints
  | .getEndpoint segment => reply <| .ofResult Endpoint.toJson <|
      (decodeName segment).bind g.directory.getEndpoint
  | .searchRoutes => reply <| .ofResult (Listing.toJson "routes" RouteView.toJson) <|
      (pageToken r.query).bind g.directory.searchRoutes
  | .getRoute segment => reply <| .ofResult RouteView.toJson <|
      (decodeName segment).bind g.directory.getRoute
  | .getLimits => reply (.ofError (.notImplemented "The get_limits API is not available yet."))
  | .setLimits => reply (.ofError (.notImplemented "The set_limits API is not available yet."))
  | .methodNotAllowed allow => reply (.methodNotAllowed allow)
  | .notFound => reply .notFound

end InferenceGateway.Server
