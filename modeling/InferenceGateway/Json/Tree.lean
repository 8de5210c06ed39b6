import InferenceGateway.Json.Token
import InferenceGateway.Document.Record

/-!
# The tree of a JSON text

The tokens of a text drive a machine that keeps a stack of open containers and ends with
the tree of the text. A token that cannot stand where it stands puts a fault there, and
so does the end of the text within a container.

A container within 127 others is well formed or not, but it cannot be read.
-/

namespace InferenceGateway.Json

open Document

/-- What may come next in an open container. -/
inductive Next where
  /-- Its first item or key, or its end. -/
  | first
  /-- An item or a key, after a comma. -/
  | item
  /-- A comma or its end. -/
  | separator
  /-- The colon after a key. -/
  | colon (key : Node)
  /-- The value of a key. -/
  | value (key : Node)

/-- A container that is open, with what it holds so far, the last first. -/
inductive Frame where
  | array (items : List Node) (next : Next)
  | object (entries : List (Node × Node)) (next : Next)

/-- The state of reading. -/
structure Build where
  /-- The open containers, the innermost first. -/
  frames : List Frame
  /-- The number of open containers. -/
  depth : Nat
  /-- The tree, once it is complete. -/
  root : Option Node
  /-- Whether the text went wrong, within the tree or after it. -/
  failed : Bool

namespace Build

/-- Before the first token. -/
def start : Build := ⟨[], 0, none, false⟩

/-- The greatest number of containers that one which is read may be in. -/
def depthLimit : Nat := 127

/-- A container that is closed within so many others. -/
def close (depth : Nat) (n : Node) : Node := if depthLimit ≤ depth then .unreadable else n

/-- A complete value, or a key, put where it belongs. -/
def put (b : Build) (n : Node) : Build :=
  match b.frames with
  | [] => { b with root := some n }
  | .array items _ :: rest => { b with frames := .array (n :: items) .separator :: rest }
  | .object entries (.value key) :: rest =>
    { b with frames := .object ((key, n) :: entries) .separator :: rest }
  | .object entries _ :: rest => { b with frames := .object entries (.colon n) :: rest }

/-- The open containers, closed around what stands in place of the next item. -/
def closeAll (inner : Node) : List Frame → Node
  | [] => inner
  | .array items _ :: rest => closeAll (.sequence (inner :: items).reverse) rest
  | .object entries (.colon key) :: rest
  | .object entries (.value key) :: rest =>
    closeAll (.mapping ((key, inner) :: entries).reverse) rest
  | .object entries _ :: rest => closeAll (.mapping ((inner, .fault) :: entries).reverse) rest

/-- The state when the text goes wrong, with what stands in place of the next item. A
    container too deep to be read is dropped with all it holds. -/
def fail (b : Build) (inner : Node) : Build :=
  match b.root with
  | some _ => { b with failed := true }
  | none =>
    -- The containers beyond the limit could not be read anyway.
    let excess := b.depth - depthLimit
    let inner := if 0 < excess then .fault else inner
    ⟨[], 0, some (closeAll inner (b.frames.drop excess)), true⟩

/-- Whether a value may come next. -/
def takesValue (b : Build) : Bool :=
  match b.frames with
  | [] => b.root.isNone
  | .array _ .first :: _ | .array _ .item :: _ | .object _ (.value _) :: _ => true
  | _ => false

/-- Whether a key may come next. -/
def takesKey (b : Build) : Bool :=
  match b.frames with
  | .object _ .first :: _ | .object _ .item :: _ => true
  | _ => false

/-- Opens a container. -/
def push (b : Build) (f : Frame) : Build :=
  { b with frames := f :: b.frames, depth := b.depth + 1 }

/-- Closes the innermost container, the others being given. -/
def pop (b : Build) (rest : List Frame) (n : Node) : Build :=
  { b with frames := rest, depth := b.depth - 1 }.put (close (b.depth - 1) n)

/-- One token more. -/
def step (b : Build) (t : Token) : Build :=
  if b.failed then b
  else match t, b.frames with
    | .openArray, _ =>
      if b.takesValue then b.push (.array [] .first)
      else b.fail (if b.takesKey then .sequence [.fault] else .fault)
    | .openObject, _ =>
      if b.takesValue then b.push (.object [] .first)
      else b.fail (if b.takesKey then .mapping [(.fault, .fault)] else .fault)
    | .scalar n, _ =>
      if b.takesValue then b.put n else b.fail (if b.takesKey then n else .fault)
    | .string n, _ => if b.takesValue || b.takesKey then b.put n else b.fail .fault
    | .closeArray, .array items .first :: rest | .closeArray, .array items .separator :: rest =>
      b.pop rest (.sequence items.reverse)
    | .closeObject, .object entries .first :: rest
    | .closeObject, .object entries .separator :: rest =>
      b.pop rest (.mapping entries.reverse)
    | .comma, .array items .separator :: rest =>
      { b with frames := .array items .item :: rest }
    | .comma, .object entries .separator :: rest =>
      { b with frames := .object entries .item :: rest }
    | .colon, .object entries (.colon key) :: rest =>
      { b with frames := .object entries (.value key) :: rest }
    | _, _ => b.fail .fault

/-- The tree at the end of the text, and whether all went well. -/
def finish (b : Build) : Node × Bool :=
  match b.root with
  | some n => (n, !b.failed)
  | none => ((b.fail .fault).root.getD .fault, false)

end Build

/-- The tree of a text, and whether the text is one value and nothing else. -/
def tree (bytes : Bytes) : Node × Bool := ((Token.ofBytes bytes).foldl Build.step .start).finish

/-- The value of a text as a reader reads it. What follows the value matters only if the
    value itself can be read. -/
def parse {α : Type} (r : Reader α) (bytes : Bytes) : Reading α := do
  let (n, complete) := tree bytes
  let a ← r .json n
  if complete then return a else throw .malformed

end InferenceGateway.Json
