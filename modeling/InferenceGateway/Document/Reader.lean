import InferenceGateway.Document.ReadError

/-!
# Readers

How a node of a document is read as a value of a type. A reader looks at a node in the
order of the text, so the first error of the text is the one that is told.
-/

namespace InferenceGateway.Document

open Numeral

/-- The outcome of reading. -/
abbrev Reading (α : Type) := Except ReadError α

/-- A way to read a node of a document of some kind. -/
abbrev Reader (α : Type) := Dialect → Node → Reading α

namespace Node

mutual

/-- Whether a node can be held as data: it has neither a fault nor an unreadable part, and
    no tag. -/
def check : Node → Reading Unit
  | .fault | .unreadable => throw .malformed
  | .sequence items => checkItems items
  | .mapping entries => checkEntries entries
  | .tagged .. => throw .tagged
  | _ => pure ()

/-- `check` for items in order. -/
def checkItems : List Node → Reading Unit
  | [] => pure ()
  | n :: rest => do check n; checkItems rest

/-- `check` for keys and values in order. -/
def checkEntries : List (Node × Node) → Reading Unit
  | [] => pure ()
  | (k, n) :: rest => do check k; check n; checkEntries rest

end

mutual

/-- A node as data. The keys of its mappings must be texts; of equal keys the last counts. -/
def toJson : Node → Reading Json
  | .null => pure .null
  | .bool b => pure (.bool b)
  | .number (.integer n) => pure (.integer n)
  | .number (.real x) => pure (.ofReal x)
  | .text s => pure (.text s)
  | .sequence items => do return .array (← toJsonItems items)
  | .mapping entries => do return .object (sortMembers (← toJsonMembers entries))
  | .fault | .unreadable => throw .malformed
  | .tagged .. => throw .tagged

/-- `toJson` for items in order. -/
def toJsonItems : List Node → Reading (List Json)
  | [] => pure []
  | n :: rest => do
    let j ← toJson n
    return j :: (← toJsonItems rest)

/-- `toJson` for keys and values in order. -/
def toJsonMembers : List (Node × Node) → Reading (List (String × Json))
  | [] => pure []
  | (k, n) :: rest => do
    match k with
    | .text name =>
      let j ← toJson n
      return (name, j) :: (← toJsonMembers rest)
    | k => throw (k.mismatch "a string key")

end

end Node

namespace Reader

/-- A text. -/
def text : Reader String := fun _ n =>
  match n.untag with
  | .text s => pure s
  | n => throw (n.mismatch "a string")

/-- A truth value. -/
def bool : Reader Bool := fun _ n =>
  match n.untag with
  | .bool b => pure b
  | n => throw (n.mismatch "a boolean")

/-- A natural number of so many bits. -/
def natural (bits : Nat) (name : String) : Reader Nat := fun _ n =>
  match n.untag with
  | .number (.integer i) =>
    if 0 ≤ i && i < Nat.pow 2 bits then pure i.toNat else throw (.invalidValue i name)
  | n => throw (n.mismatch name)

/-- A natural number of 32 bits. -/
def word32 : Reader Nat := natural 32 "u32"

/-- A natural number of 64 bits. -/
def word64 : Reader Nat := natural 64 "u64"

/-- A number of 32 bits, rounded from what is written. -/
def single : Reader Binary := fun _ n =>
  match n.untag with
  | .number (.integer i) => pure (Format.single.ofInt i)
  | .number (.real x) => pure (x.convert .single)
  | n => throw (n.mismatch "f32")

/-- Any value, as data. -/
def value : Reader Json := fun _ n => do n.check; n.toJson

/-- A value or nothing. -/
def option {α : Type} (r : Reader α) : Reader (Option α) := fun d n =>
  match n with
  | .null => pure none
  | n => some <$> r d n

/-- A list. -/
def list {α : Type} (r : Reader α) : Reader (List α) := fun d n =>
  match n.untag with
  | .sequence items => items.mapM (r d)
  | .null => if d = .yaml then pure [] else throw (Node.null.mismatch "a sequence")
  | n => throw (n.mismatch "a sequence")

/-- The variant of a name. -/
def variant {α : Type} (variants : List (String × α)) (name : String) : Reading α :=
  match variants.lookup name with
  | some a => pure a
  | none => throw (.unknownVariant name (variants.map (·.1)))

/-- A node that must be nothing. -/
def unit (n : Node) : Reading Unit :=
  match n.untag with
  | .null => pure ()
  | n => throw (n.mismatch "unit")

/-- One of some named variants: its name, or its name with nothing as content, as the only
    key of an object or as a tag. -/
def enumeration {α : Type} (variants : List (String × α)) : Reader α := fun d n =>
  match d, n with
  | _, .text s => variant variants s
  | .yaml, .tagged tag content => do
    let a ← variant variants tag
    unit content
    return a
  | .yaml, n => throw (n.mismatch "a Value::Tagged enum")
  | _, .mapping ((.text s, content) :: rest) => do
    let a ← variant variants s
    unit content
    if rest.isEmpty then return a else throw .malformed
  | _, .mapping ((key, _) :: _) => throw (key.mismatch "variant identifier")
  | _, _ => throw .malformed

end Reader

end InferenceGateway.Document
