import InferenceGateway.Document.Reader

/-!
# Records

How a record is read from a mapping. The entries are taken in the order of the text: the
key of each names a field, by its name or by another spelling of it, and its value is
checked at once (`place`). When all entries are placed the record is built, and fields
that are missing come to light, in the order of the record (`Fields.build`).

Entries that name no field are either passed over (`Fields.closed`) or kept as data
(`Fields.keeping`). A record whose entries are not kept may also be written in JSON as the
array of its fields (`arrange`).
-/

namespace InferenceGateway.Document

/-- A field of a record. -/
structure Field where
  name : String
  /-- Other names of the field. -/
  spellings : List String
  /-- Whether an array of the fields may end before this one. -/
  mayTrail : Bool
  /-- Whether a node can be read as the field. -/
  check : Dialect → Node → Reading Unit

/-- Whether a key names a field. -/
def Field.isNamed (f : Field) (key : String) : Bool := f.name = key || f.spellings.contains key

/-- The fields of a record, and how the record is built from their nodes. -/
structure Fields (α : Type) where
  fields : List Field
  build : Dialect → (String → Option Node) → Reading α

namespace Fields

/-- A record whose value is passed on to a function. -/
instance : Functor Fields where
  map f r := ⟨r.fields, fun d look => f <$> r.build d look⟩

/-- Records put together: the fields of the first come before those of the second. -/
instance : Applicative Fields where
  pure a := ⟨[], fun _ _ => pure a⟩
  seq f x := ⟨f.fields ++ (x ()).fields, fun d look => do
    let g ← f.build d look
    let a ← (x ()).build d look
    return g a⟩

/-- A single field, with what stands for it when it is absent. -/
def single {α : Type} (name : String) (spellings : List String) (read : Reader α)
    (mayTrail : Bool) (absent : Reading α) : Fields α where
  fields := [⟨name, spellings, mayTrail, fun d n => (fun _ => ()) <$> read d n⟩]
  build d look := match look name with
    | some n => read d n
    | none => absent

/-- A field that must be present. -/
def required {α : Type} (name : String) (read : Reader α) : Fields α :=
  single name [] read false (throw (.missingField name))

/-- A field that must be present, under its name or another. -/
def requiredUnder {α : Type} (name : String) (spellings : List String) (read : Reader α) :
    Fields α :=
  single name spellings read false (throw (.missingField name))

/-- A field that may be absent or null. -/
def optional {α : Type} (name : String) (read : Reader α) : Fields (Option α) :=
  single name [] (.option read) false (pure none)

/-- A field that may be absent or null, under its name or another. -/
def optionalUnder {α : Type} (name : String) (spellings : List String) (read : Reader α) :
    Fields (Option α) :=
  single name spellings (.option read) false (pure none)

/-- A field with a value of its own when it is absent. -/
def defaulting {α : Type} (name : String) (read : Reader α) (absent : α) : Fields α :=
  single name [] read true (pure absent)

end Fields

/-- The entries of a mapping, sorted out. -/
structure Placed where
  /-- The nodes of the fields, by the names of the fields. -/
  known : List (String × Node)
  /-- The other entries that are kept, the last first. -/
  extra : List (Node × Node)

/-- The text of a key. -/
def keyText (d : Dialect) (key : Node) : Reading String :=
  match key.untag with
  | .text s => pure s
  | k => if d = .yaml then throw (k.mismatch "field identifier") else throw .malformed

/-- Places one more entry. -/
def placeEntry (d : Dialect) (fields : List Field) (keep : Bool) (p : Placed)
    (entry : Node × Node) : Reading Placed := do
  let key ← keyText d entry.1
  match fields.find? (·.isNamed key) with
  | some f =>
    if (p.known.lookup f.name).isSome then throw (.duplicateField f.name)
    f.check d entry.2
    return { p with known := (f.name, entry.2) :: p.known }
  | none =>
    if keep then
      entry.2.check
      return { p with extra := (.text key, entry.2) :: p.extra }
    else if entry.2.isWellFormed then return p
    else throw .malformed

/-- Places the entries of a mapping in order. -/
def place (d : Dialect) (fields : List Field) (keep : Bool) (entries : List (Node × Node)) :
    Reading Placed :=
  entries.foldlM (placeEntry d fields keep) ⟨[], []⟩

/-- A count of elements. -/
def elements (n : Nat) : String := toString n ++ (if n = 1 then " element" else " elements")

/-- Places the items of an array of fields, `index` being the position of the next. Only
    fields that may be absent there can be missing at the end. -/
def arrange (d : Dialect) (label : String) (all : List Field) (items : List Node) :
    (index : Nat) → List Field → List Node → Reading (List (String × Node))
  | _, [], [] => pure []
  | _, [], _ :: _ =>
    if d = .buffered then
      throw (.invalidLength items.length (elements all.length ++ " in sequence"))
    else throw .malformed
  | index, f :: fields, n :: rest => do
    f.check d n
    return (f.name, n) :: (← arrange d label all items (index + 1) fields rest)
  | index, f :: fields, [] =>
    if f.mayTrail then arrange d label all items (index + 1) fields []
    else throw (.invalidLength index (label ++ " with " ++ elements all.length))

namespace Fields

variable {α : Type}

/-- The record of a mapping whose other entries are passed over. -/
def ofEntries (r : Fields α) (d : Dialect) (entries : List (Node × Node)) : Reading α := do
  let p ← place d r.fields false entries
  r.build d (p.known.lookup ·)

/-- The record of an array of its fields. -/
def ofItems (r : Fields α) (d : Dialect) (label : String) (items : List Node) : Reading α := do
  let known ← arrange d label r.fields items 0 r.fields items
  r.build d (known.lookup ·)

/-- Reads a record whose unknown entries are passed over. -/
def closed (r : Fields α) (label : String) : Reader α := fun d n =>
  match n.untag with
  | .mapping entries => r.ofEntries d entries
  | .null => if d = .yaml then r.ofEntries d [] else throw (Node.null.mismatch label)
  | .sequence items =>
    if d = .yaml then throw (Node.mismatch (.sequence []) label) else r.ofItems d label items
  | n => throw (n.mismatch label)

/-- The record of a mapping, with its other entries as data. -/
def ofEntriesWithExtra (r : Fields (List (String × Json) → α)) (d : Dialect)
    (entries : List (Node × Node)) : Reading α := do
  let p ← place d r.fields true entries
  let record ← r.build d (p.known.lookup ·)
  let extra ← Node.toJsonMembers p.extra.reverse
  return record (sortMembers extra)

/-- Reads a record that keeps its unknown entries. -/
def keeping (r : Fields (List (String × Json) → α)) (label : String) : Reader α := fun d n =>
  match n.untag with
  | .mapping entries => r.ofEntriesWithExtra d entries
  | .null => if d = .yaml then r.ofEntriesWithExtra d [] else throw (Node.null.mismatch label)
  | n => throw (n.mismatch label)

end Fields

end InferenceGateway.Document
