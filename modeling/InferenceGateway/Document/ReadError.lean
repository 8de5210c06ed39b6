import InferenceGateway.Document.Node
import InferenceGateway.Numeral.Layout
import InferenceGateway.Text.Quoted

/-!
# Reading errors

The ways in which a document is not what a reader expects, and how they are told. Most
name what was found and what was expected. The wording of what was found depends on the
kind of document (`Dialect`).
-/

namespace InferenceGateway.Document

open Numeral

/-- The kind of a document. -/
inductive Dialect where
  /-- A JSON text, read as it comes. -/
  | json
  /-- A part of a JSON text that was held back until the kind of its container is known. -/
  | buffered
  | yaml
deriving DecidableEq, Repr

/-- What was found in a document. -/
inductive Found where
  | null
  | bool (value : Bool)
  | number (value : Number)
  | text (value : String)
  | sequence
  | mapping
deriving DecidableEq, Repr

/-- Why a document cannot be read. -/
inductive ReadError where
  /-- The text is no document. -/
  | malformed
  | missingField (name : String)
  | duplicateField (name : String)
  | invalidType (found : Found) (expected : String)
  /-- An integer out of range. -/
  | invalidValue (value : Int) (expected : String)
  /-- A sequence of the wrong length. -/
  | invalidLength (length : Nat) (expected : String)
  | unknownVariant (name : String) (known : List String)
  /-- A value that is none of the shapes of a choice. -/
  | noShape (choice : String)
  /-- A tag in a value that is kept as data. -/
  | tagged
deriving DecidableEq, Repr

/-- A word between backquotes. -/
def ticked (s : String) : String := "`" ++ s ++ "`"

/-- The text of a number in a message. A number of 64 bits is told by its point or by its
    exponent from an integer. -/
def numberText (d : Dialect) : Number → String
  | .integer n => "integer " ++ ticked (toString n)
  | .real x =>
    let text := match d with
      | .yaml => x.text .double .pointedPlain "inf" "NaN"
      | _ => x.jsonText
    "floating point " ++ ticked text

/-- What was found, in a message. -/
def Found.message (d : Dialect) : Found → String
  | .null => if d = .yaml then "unit value" else "null"
  | .bool b => "boolean " ++ ticked (toString b)
  | .number n => numberText d n
  | .text s => "string " ++ Text.quoted s
  | .sequence => "sequence"
  | .mapping => "map"

namespace ReadError

/-- The masked message of a text that is no document. -/
def malformedMessage (d : Dialect) : String :=
  if d = .yaml then "<malformed YAML>" else "<malformed JSON>"

/-- The message of an error in a document of a kind. It leaves out where in a text the error is:
    the line and the column that may follow it. So texts of which the same error is told may differ
    in the place of it. -/
def message (d : Dialect) : ReadError → String
  | malformed => malformedMessage d
  | missingField name => "missing field " ++ ticked name
  | duplicateField name => "duplicate field " ++ ticked name
  | invalidType found expected =>
    "invalid type: " ++ found.message d ++ ", expected " ++ expected
  | invalidValue value expected =>
    "invalid value: " ++ numberText d (.integer value) ++ ", expected " ++ expected
  | invalidLength length expected =>
    "invalid length " ++ toString length ++ ", expected " ++ expected
  | unknownVariant name known =>
    "unknown variant " ++ ticked name ++ ", expected one of "
      ++ ", ".intercalate (known.map ticked)
  | noShape choice => "data did not match any variant of untagged enum " ++ choice
  | tagged => "untagged and internally tagged enums do not support enum input"

end ReadError

/-- What a node is, if it can be told. -/
def Node.found? : Node → Option Found
  | .fault | .unreadable => none
  | .null => some .null
  | .bool b => some (.bool b)
  | .number n => some (.number n)
  | .text s => some (.text s)
  | .sequence _ => some .sequence
  | .mapping _ => some .mapping
  | .tagged _ n => n.found?

/-- The error of a node that is not what was expected. -/
def Node.mismatch (n : Node) (expected : String) : ReadError :=
  match n.found? with
  | some found => .invalidType found expected
  | none => .malformed

end InferenceGateway.Document
