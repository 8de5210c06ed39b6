import InferenceGateway.Document.Record

/-!
# Tagged variants

How a value of one of several kinds is read, when a field of it names its kind. The rest of
the value cannot be read until the kind is known, so it is held back; it must only be
readable as data. The tag may stand anywhere in an object, or first in an array.
-/

namespace InferenceGateway.Document

/-- The tag of a value, and what is held back of the value. -/
structure Variant (τ : Type) where
  tag : τ
  rest : Node

/-- The kinds that tags name. The first of all is also meant by the number zero where a tag
    has been held back, and a tag that names no kind means `other`. -/
structure Tags (τ : Type) where
  named : List (String × τ)
  other : τ

namespace Tags

variable {τ : Type}

/-- The kind that a tag names. -/
def read (t : Tags τ) : Reader τ := fun d n =>
  match d, n with
  | _, .text s => pure ((t.named.lookup s).getD t.other)
  | .buffered, .number (.integer i) =>
    if i < 0 then throw (n.mismatch "variant identifier")
    else pure ((t.named[i.toNat]?.map (·.2)).getD t.other)
  | _, n => throw (n.mismatch "variant identifier")

/-- Looks for the tag among entries in order, and holds back the others. -/
def fromEntries (t : Tags τ) (d : Dialect) (name : String) :
    (tag : Option τ) → (rest : List (Node × Node)) → List (Node × Node) → Reading (Variant τ)
  | some tag, rest, [] => pure ⟨tag, .mapping rest.reverse⟩
  | none, _, [] => throw (.missingField name)
  | tag, rest, (k, n) :: entries => do
    let key ← keyText d k
    if key = name then
      if tag.isSome then throw (.duplicateField name)
      let found ← t.read d n
      fromEntries t d name (some found) rest entries
    else
      n.check
      fromEntries t d name tag ((k, n) :: rest) entries

/-- Reads the tag of a value with a label. -/
def split (t : Tags τ) (name label : String) : Reader (Variant τ) := fun d n =>
  match n with
  | .mapping entries => t.fromEntries d name none [] entries
  | .sequence [] => throw (.missingField name)
  | .sequence (first :: rest) => do
    let tag ← t.read d first
    Node.checkItems rest
    return ⟨tag, .sequence rest⟩
  | n => throw (n.mismatch label)

end Tags

/-- A variant without fields: nothing may be left of an array, and anything of an object. -/
def Node.readEmpty : Node → Reading Unit
  | .sequence (_ :: rest) =>
    throw (.invalidLength (rest.length + 1) (elements 0 ++ " in sequence"))
  | _ => pure ()

end InferenceGateway.Document
