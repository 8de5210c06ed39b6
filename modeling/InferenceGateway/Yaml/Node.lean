import InferenceGateway.Yaml.Core
import InferenceGateway.Yaml.Tokens
import InferenceGateway.Yaml.Tree

/-!
# YAML documents

The document of a text: its tree with every alias replaced by the node it stands for. A
text has no document if it is not YAML, if it holds several documents, if a mapping has a
key twice, or if it is nested too deeply or expanded too far.
-/

namespace InferenceGateway.Yaml

open Document

/-! ## Equal keys -/

/-- Whether two numbers are the same key. -/
def sameNumber : Numeral.Number → Numeral.Number → Bool
  | .integer a, .integer b => a == b
  | .real (.finite s m e), .real (.finite s' m' e') =>
    (m == 0 && m' == 0) || (s == s' && m == m' && e == e')
  | .real a, .real b => a == b
  | _, _ => false

mutual

/-- Whether two nodes are the same key. The order of the entries of a mapping does not
    matter. -/
def same : Node → Node → Bool
  | .null, .null => true
  | .bool a, .bool b => a == b
  | .number a, .number b => sameNumber a b
  | .text a, .text b => a == b
  | .sequence items, .sequence others => sameItems items others
  | .mapping entries, .mapping others =>
    entries.length == others.length && entriesIn entries others
  | .tagged tag n, .tagged tag' n' => tag == tag' && same n n'
  | _, _ => false

/-- `same` for items in order. -/
def sameItems : List Node → List Node → Bool
  | [], [] => true
  | n :: rest, n' :: rest' => same n n' && sameItems rest rest'
  | _, _ => false

/-- Whether all entries are among others. -/
def entriesIn : List (Node × Node) → List (Node × Node) → Bool
  | [], _ => true
  | (k, n) :: rest, others =>
    others.any (fun (k', n') => same k k' && same n n') && entriesIn rest others

end

/-- Whether no key of a mapping occurs twice. -/
def areDistinct : List Node → Bool
  | [] => true
  | k :: rest => !rest.any (same k) && areDistinct rest

/-! ## Aliases -/

/-- How often aliases may be followed in a document, for each of its marks. -/
def expansionLimit : Nat := 100

/-- How deep collections may be nested. -/
def depthLimit : Nat := 128

/-- A computation that may fail, and counts down how often aliases may still be followed. -/
abbrev Expansion := StateT Nat Option

/-- The name of a local tag, if a tag is one. -/
def localTag? (tag : Option String) : Option String :=
  tag.bind fun t => if t.startsWith "!" then some (String.ofList (t.toList.drop 1)) else none

/-- A node under the local tag that it may have, whose name is not empty. -/
def underTag (tag : Option String) (n : Node) : Expansion Node :=
  match localTag? tag with
  | none => pure n
  | some name => if name.isEmpty then failure else pure (.tagged name n)

/-- The node of a scalar. -/
def scalarNode (tag : Option String) (plain : Bool) (text : String) : Expansion Node := do
  let n ← match tag, localTag? tag with
    | some t, none => (Core.typed t text : Option Node)
    | _, _ => pure (if plain then Core.plain text else .text text)
  match n with
  | .unreadable => failure
  | n => underTag tag n

/-- The tree that a tree stands for: an alias stands for the node with its anchor. -/
def follow (anchors : Anchors) : Tree → Expansion Tree
  | .alias number => do
    match ← get with
    | 0 => failure
    | left + 1 =>
      set left
      anchors.tree? number
  | t => pure t

/-- A key and its value, expanded. -/
def expandEntry (expand : Tree → Expansion Node) (entry : Tree × Tree) :
    Expansion (Node × Node) := do
  let k ← expand entry.1
  let n ← expand entry.2
  return (k, n)

/-- The node of a tree within which collections may be nested so deep. -/
def expand (anchors : Anchors) : (depth : Nat) → Tree → Expansion Node
  | 0, t => do
    match ← follow anchors t with
    | .scalar tag plain text => scalarNode tag plain text
    | _ => failure
  | depth + 1, t => do
    match ← follow anchors t with
    | .scalar tag plain text => scalarNode tag plain text
    | .sequence tag items => do
      let items ← items.mapM (expand anchors depth)
      underTag tag (.sequence items)
    | .mapping tag entries => do
      let entries ← entries.mapM (expandEntry (expand anchors depth))
      if areDistinct (entries.map (·.1)) then underTag tag (.mapping entries) else failure
    | .alias _ => failure

/-- The document of a text. -/
def parse (text : String) : Option Node := do
  let source ← Source.ofString text
  let (tree, anchors) ← Composer.document (← tokens source)
  let (n, _) ← (expand anchors depthLimit tree).run (expansionLimit * tree.size)
  return n

end InferenceGateway.Yaml
