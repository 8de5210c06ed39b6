import InferenceGateway.Error

/-!
# Writing an event stream

The answers that the gateway streams. Each fragment is an event with its JSON text as data.
After the last one comes the end mark, or an event that tells an error; never both.
-/

namespace InferenceGateway.EventStream

/-- An event with data. -/
def dataFrame (data : String) : String := "data: " ++ data ++ "\n\n"

/-- The event of a fragment. -/
def chunkFrame (fragment : Json) : String := dataFrame fragment.print

/-- The event at the end of a stream. -/
def doneFrame : String := dataFrame "[DONE]"

/-- The body of the event of an error. -/
def errorBody (e : GatewayError) : Json :=
  .object [("error", .object [("message", .text e.message), ("status", .integer e.status)])]

/-- The event of an error. -/
def errorFrame (e : GatewayError) : String := "event: error\n" ++ dataFrame (errorBody e).print

/-- The events of fragments up to the first error. -/
def frames : List (Except GatewayError Json) → List String
  | [] => [doneFrame]
  | .ok fragment :: rest => chunkFrame fragment :: frames rest
  | .error e :: _ => [errorFrame e]

/-- The error that ends the events of fragments, if any. -/
def firstError? (fragments : List (Except GatewayError Json)) : Option GatewayError :=
  fragments.findSome? fun
    | .ok _ => none
    | .error e => some e

end InferenceGateway.EventStream
