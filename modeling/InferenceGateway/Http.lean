import InferenceGateway.Error
import InferenceGateway.Http.Url

/-!
# Requests to providers

What the gateway sends to a provider, and what comes back. An operation that needs a
provider is a `Call`: it is done, or it sends a request and goes on with the reply, and so on.
-/

namespace InferenceGateway

namespace Http

/-- A request that posts a JSON text. -/
structure Request where
  url : String
  /-- The headers, with their names in lower case. -/
  headers : List (String × String)
  body : String
deriving DecidableEq, Repr

/-- What comes back. -/
inductive Reply where
  /-- Nothing: there is no connection, or it was closed. -/
  | down
  /-- An answer; its body comes in pieces, and may break off. -/
  | answer (status : Nat) (pieces : List Bytes) (complete : Bool)
deriving Repr

/-- A reply stands for the row of replies that holds it alone. -/
instance : Coe Reply (List Reply) := ⟨fun reply => [reply]⟩

/-- Whether a text can be the value of a header. -/
def isHeaderValue (s : String) : Bool :=
  (Text.Utf8.encode s).all fun b => (0x20 ≤ b && b ≠ 0x7F) || b = 0x09

/-- The request that posts a body to an address. The address must have a host, the headers
    must be headers, and then the scheme must be one of the web. -/
def post (address : String) (headers : List (String × String)) (body : Json) :
    Except TransportFault Request :=
  match Url.parse address with
  | none => .error .unbuildable
  | some url =>
    if url.host.isNone then .error (.badAddress url.text)
    else if !headers.all (isHeaderValue ·.2) then .error .unbuildable
    else if url.scheme ≠ "http" && url.scheme ≠ "https" then .error (.badAddress url.text)
    else .ok ⟨url.text, url.authorization ++ headers, body.print⟩

/-- The status and the pieces of the body of a reply, and whether the body is complete, if the
    provider was reached. -/
def Reply.received (url : String) : Reply → Except TransportFault (Nat × List Bytes × Bool)
  | .down => .error (.unreachable url)
  | .answer status pieces complete => .ok (status, pieces, complete)

/-- How much of the text of a provider's error is told. -/
def errorTextLimit : Nat := 4096

/-- The text of an error. A body that breaks off counts as empty, and a byte order mark at
    its beginning as nothing. -/
def errorText (body : Bytes) (complete : Bool) : String :=
  let body := match body with
    | 0xEF :: 0xBB :: 0xBF :: rest => rest
    | body => body
  if complete then String.ofList ((Text.Utf8.decodeLenient body).toList.take errorTextLimit)
  else ""

/-- Whether a status is one of success. -/
def isSuccess (status : Nat) : Bool := 200 ≤ status && status < 300

/-- The pieces of the body of a successful reply, and whether it is complete. Any other
    status is an error of the provider. -/
def Reply.success (vendor url : String) (r : Reply) :
    Except GatewayError (List Bytes × Bool) := do
  let (status, pieces, complete) ← (r.received url).mapError .transport
  if isSuccess status then return (pieces, complete)
  else throw (.vendor status (.refused vendor (errorText pieces.flatten complete)))

end Http

/-- An operation that may ask for something: it is done, or it sends a request and goes on with the
    reply. -/
inductive Call (α : Type) where
  | done (result : α)
  | send (request : Http.Request) (next : Http.Reply → Call α)

namespace Call

variable {α β : Type}

/-- A call with its result passed on to a function. -/
def map (f : α → β) : Call α → Call β
  | .done a => .done (f a)
  | .send request next => .send request fun reply => (next reply).map f

/-- The result of a call, given the replies to its requests in order. After the last reply there is
    no connection. -/
def result (c : Call α) (replies : List Http.Reply) : α :=
  match c with
  | .done a => a
  | .send _ next => (next (replies.headD .down)).result replies.tail

/-- The result of a call, given the reply to its first request. -/
def run (c : Call α) (reply : Http.Reply) : α := c.result [reply]

/-- The requests that a call sends, given the replies to them. -/
def requests (c : Call α) (replies : List Http.Reply := []) : List Http.Request :=
  match c with
  | .done _ => []
  | .send request next => request :: (next (replies.headD .down)).requests replies.tail

/-- Whether a call sends a request. -/
def sends : Call α → Bool
  | .done _ => false
  | .send .. => true

/-- A function is applied to the result of a call. -/
theorem result_map (f : α → β) (replies : List Http.Reply) (c : Call α) :
    (c.map f).result replies = f (c.result replies) := by
  induction c generalizing replies with
  | done => rfl
  | send _ next ih => exact ih _ _

/-- Passing the result of a call on sends nothing. -/
theorem requests_map (f : α → β) (replies : List Http.Reply) (c : Call α) :
    (c.map f).requests replies = c.requests replies := by
  induction c generalizing replies with
  | done => rfl
  | send request next ih => exact congrArg (request :: ·) (ih _ _)

theorem sends_map (f : α → β) (c : Call α) : (c.map f).sends = c.sends := by
  cases c <;> rfl

end Call

end InferenceGateway
