import InferenceGateway.Error
import InferenceGateway.Json.Tree
import InferenceGateway.Text.Base64
import InferenceGateway.Text.Blank

/-!
# Page tokens

Where the next page of a listing begins, as a text that a client hands back as it is: the
position in a JSON object, written in base 64. No token means the beginning.
-/

namespace InferenceGateway.Page

open Document

/-- What a token holds: a position. -/
def tokenFields : Fields Nat := .required "index" (.natural 64 "usize")

/-- The token of a position. -/
def encode (index : Nat) : String :=
  Text.Utf8.decodeLenient (Text.Base64.encode
    (Text.Utf8.encode (Json.object [("index", .integer index)]).print))

/-- The position that a token holds. White space around it does not matter. -/
def decode? (token : String) : Option Nat := do
  let bytes ← Text.Base64.decode (Text.Utf8.encode (Text.trim token))
  (Json.parse (tokenFields.closed "struct PageToken") bytes).toOption

/-- The position at which a listing with a token begins. -/
def start : Option String → Except Refusal Nat
  | none => .ok 0
  | some token => match decode? token with
    | some index => .ok index
    | none => .error (.pageToken token)

end InferenceGateway.Page
