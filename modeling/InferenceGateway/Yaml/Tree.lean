import InferenceGateway.Yaml.Token

/-!
# The tree of a YAML document

The tokens of a document are put together to a tree by a machine with a stack of open
collections. An anchor gives the node after it a number, and an alias is the number of an
anchor that has come before it. The number of an anchor is the number of names known when
it comes, so an anchor that repeats a name may share its number with the next new name;
a number then stands for the node that begins last.
-/

namespace InferenceGateway.Yaml

/-- A node of a document as it is written. -/
inductive Tree where
  | alias (number : Nat)
  | scalar (tag : Option String) (plain : Bool) (text : String)
  | sequence (tag : Option String) (items : List Tree)
  | mapping (tag : Option String) (entries : List (Tree × Tree))
deriving Inhabited

namespace Tree

/-- A node that is not written. -/
def missing : Tree := .scalar none true ""

mutual

/-- The number of marks in a tree: one for an alias or a scalar, two for a collection. -/
def size : Tree → Nat
  | .alias _ => 1
  | .scalar .. => 1
  | .sequence _ items => sizeItems items + 2
  | .mapping _ entries => sizeEntries entries + 2

/-- The marks of items. -/
def sizeItems : List Tree → Nat
  | [] => 0
  | t :: rest => size t + sizeItems rest

/-- The marks of keys and values. -/
def sizeEntries : List (Tree × Tree) → Nat
  | [] => 0
  | (k, t) :: rest => size k + size t + sizeEntries rest

end

end Tree

/-- The anchors of a document. -/
structure Anchors where
  /-- The number of each name. -/
  names : List (String × Nat)
  /-- The nodes that bear each number, by the order in which they begin, the last first. -/
  bearers : List (Nat × Nat)
  /-- How many anchors there have been. -/
  count : Nat
  /-- The nodes with an anchor, by the order in which they begin. -/
  trees : List (Nat × Tree)

namespace Anchors

/-- No anchors. -/
def empty : Anchors := ⟨[], [], 0, []⟩

/-- Notes the anchor of a node that begins. -/
def add (a : Anchors) (name : String) : Anchors :=
  let number := a.names.length
  { a with
    names := (name, number) :: a.names.filter (·.1 ≠ name)
    bearers := (number, a.count) :: a.bearers
    count := a.count + 1 }

/-- The node that a number stands for. -/
def tree? (a : Anchors) (number : Nat) : Option Tree :=
  do a.trees.lookup (← a.bearers.lookup number)

end Anchors

/-- What a flow mapping waits for. -/
inductive FlowStep where
  /-- An entry, the first or another, or the end. -/
  | entry (first : Bool)
  /-- The node of a key after its mark. -/
  | key
  /-- The node of a key without a mark and without a value. -/
  | lone
  /-- The mark of a value. -/
  | valueMark (key : Tree)
  /-- The node of a value. -/
  | value (key : Tree)

/-- What a pair in a flow sequence waits for. -/
inductive PairStep where
  | start
  | key
  | valueMark (key : Tree)
  | value (key : Tree)
  | finish (key value : Tree)

/-- An open collection, with what it holds so far, the last first. -/
inductive Shape where
  | blockSequence (items : List Tree)
  /-- A sequence as the value of a key, whose dashes stand below the key. -/
  | indentless (items : List Tree)
  /-- A block mapping, with the key whose value comes next. -/
  | blockMapping (entries : List (Tree × Tree)) (key : Option Tree)
  | flowSequence (items : List Tree) (first : Bool)
  | flowMapping (entries : List (Tree × Tree)) (step : FlowStep)
  | pair (step : PairStep)

/-- The properties before a node. -/
structure Properties where
  tag : Option String
  /-- The place of the anchor among all anchors. -/
  anchor : Option Nat

/-- No properties. -/
def Properties.none : Properties := ⟨Option.none, Option.none⟩

/-- The state of putting a document together. -/
structure Composer where
  tokens : List Token
  /-- The open collections with their properties, the innermost first. -/
  frames : List (Properties × Shape)
  anchors : Anchors
  /-- The stems of the tag handles. -/
  stems : List (String × String)
  root : Option Tree

namespace Composer

/-! ## Nodes -/

/-- A complete node put where it belongs. -/
def put (c : Composer) (t : Tree) : Composer :=
  match c.frames with
  | [] => { c with root := some t }
  | (p, shape) :: rest =>
    let shape := match shape with
      | .blockSequence items => .blockSequence (t :: items)
      | .indentless items => .indentless (t :: items)
      -- Keys and values take turns.
      | .blockMapping entries none => .blockMapping entries (some t)
      | .blockMapping entries (some k) => .blockMapping ((k, t) :: entries) none
      | .flowSequence items _ => .flowSequence (t :: items) false
      | .flowMapping entries step => match step with
        | .value k => .flowMapping ((k, t) :: entries) (.entry false)
        | .lone => .flowMapping ((t, .missing) :: entries) (.entry false)
        | _ => .flowMapping entries (.valueMark t)
      | .pair step => match step with
        | .value k => .pair (.finish k t)
        | _ => .pair (.valueMark t)
    { c with frames := (p, shape) :: rest }

/-- A complete node with its properties, which is remembered if it has an anchor. -/
def deliver (c : Composer) (p : Properties) (t : Tree) : Composer :=
  match p.anchor with
  | some place =>
    { c with anchors := { c.anchors with trees := (place, t) :: c.anchors.trees } }.put t
  | none => c.put t

/-- Closes the innermost collection, going on after so many tokens. -/
def close (c : Composer) (t : Properties → Tree) (width : Nat) : Composer :=
  match c.frames with
  | (p, _) :: rest => { c with frames := rest, tokens := c.tokens.drop width }.deliver p (t p)
  | [] => c

/-- Opens a collection, going on after so many tokens. -/
def begin (c : Composer) (p : Properties) (shape : Shape) (width : Nat) : Composer :=
  { c with frames := (p, shape) :: c.frames, tokens := c.tokens.drop width }

/-- The tag of a handle and a suffix. -/
def tag? (c : Composer) (handle suffix : String) : Option String :=
  if handle.isEmpty then some suffix else (c.stems.lookup handle).map (· ++ suffix)

/-- The properties at the beginning of the tokens. -/
def properties (c : Composer) : Option (Properties × Composer) :=
  let anchored (c : Composer) (name : String) (rest : List Token) : Nat × Composer :=
    (c.anchors.count, { c with anchors := c.anchors.add name, tokens := rest })
  match c.tokens with
  | .anchor name :: .tag handle suffix :: rest => do
    let t ← c.tag? handle suffix
    let (place, c) := anchored c name rest
    return (⟨some t, some place⟩, c)
  | .tag handle suffix :: .anchor name :: rest => do
    let t ← c.tag? handle suffix
    let (place, c) := anchored c name rest
    return (⟨some t, some place⟩, c)
  | .anchor name :: rest =>
    let (place, c) := anchored c name rest
    some (⟨none, some place⟩, c)
  | .tag handle suffix :: rest => do
    let t ← c.tag? handle suffix
    return (⟨some t, none⟩, { c with tokens := rest })
  | _ => some (.none, c)

/-- A node of which only properties are written. -/
def absent (c : Composer) (p : Properties) : Option Composer :=
  if p.tag.isSome || p.anchor.isSome then some (c.deliver p (.scalar p.tag true "")) else none

/-- Takes the node at the beginning of the tokens, or begins it if it is a collection. In a
    flow collection there are no blocks. -/
def node (c : Composer) (block indentless : Bool) : Option Composer :=
  match c.tokens with
  | .alias name :: rest => do
    let number ← c.anchors.names.lookup name
    return { c with tokens := rest }.put (.alias number)
  | _ => do
    let (p, c) ← c.properties
    match c.tokens with
    | .scalar text plain :: rest =>
      let tag := p.tag.filter (· ≠ "!")
      return { c with tokens := rest }.deliver p (.scalar tag plain text)
    | .flowSequenceStart :: _ => return c.begin p (.flowSequence [] true) 1
    | .flowMappingStart :: _ => return c.begin p (.flowMapping [] (.entry true)) 1
    -- Dashes below a key have no token that opens them, so none is taken here.
    | .blockEntry :: _ =>
      if indentless then return c.begin p (.indentless []) 0 else c.absent p
    | .blockSequenceStart :: _ =>
      if block then return c.begin p (.blockSequence []) 1 else c.absent p
    | .blockMappingStart :: _ =>
      if block then return c.begin p (.blockMapping [] none) 1 else c.absent p
    | _ => c.absent p
/-! ## Collections -/

/-- Whether the next token is none of some tokens; the end of the tokens is none. -/
def goesOn (c : Composer) (ends : List Token) : Bool := !c.tokens.head?.any ends.contains

/-- A node unless one of some tokens stands in its place. -/
def nodeUnless (c : Composer) (ends : List Token) (block indentless : Bool) : Option Composer :=
  if c.goesOn ends then c.node block indentless else some (c.put .missing)

/-- The composer with the innermost collection in another state, after so many tokens. -/
def turn (c : Composer) (shape : Shape) (width : Nat) : Composer :=
  match c.frames with
  | (p, _) :: rest => { c with frames := (p, shape) :: rest, tokens := c.tokens.drop width }
  | [] => c

/-- The next entry of a flow collection, or its end: whether a comma that must come before
    it does. -/
def afterComma (c : Composer) (first : Bool) (finish : Token) : Option Composer :=
  match c.tokens with
  | .flowEntry :: rest => if first then some c else some { c with tokens := rest }
  | t :: _ => if first || t == finish then some c else none
  | [] => none

/-- One step within a flow sequence. -/
def flowSequence (c : Composer) (items : List Tree) (first : Bool) : Option Composer := do
  let c ← c.afterComma first .flowSequenceEnd
  match c.tokens with
  | .flowSequenceEnd :: _ => return c.close (fun p => .sequence p.tag items.reverse) 1
  | .key :: _ => return c.begin .none (.pair .start) 1
  | _ => c.node false false

/-- One step within a flow mapping. -/
def flowMapping (c : Composer) (entries : List (Tree × Tree)) : FlowStep → Option Composer
  | .entry first => do
    let c ← c.afterComma first .flowMappingEnd
    match c.tokens with
    | .flowMappingEnd :: _ => return c.close (fun p => .mapping p.tag entries.reverse) 1
    | .key :: _ =>
      (c.turn (.flowMapping entries .key) 1).nodeUnless [.value, .flowEntry, .flowMappingEnd]
        false false
    | _ => (c.turn (.flowMapping entries .lone) 0).node false false
  | .valueMark k =>
    match c.tokens with
    | .value :: _ =>
      (c.turn (.flowMapping entries (.value k)) 1).nodeUnless [.flowEntry, .flowMappingEnd]
        false false
    | _ => some ((c.turn (.flowMapping entries (.value k)) 0).put .missing)
  | _ => none

/-- One step within a pair of a flow sequence. A key that is missing takes the token in its
    place with it. -/
def pair (c : Composer) : PairStep → Option Composer
  | .start =>
    if c.goesOn [.value, .flowEntry, .flowSequenceEnd] then
      (c.turn (.pair .key) 0).node false false
    else some ((c.turn (.pair .key) 1).put .missing)
  | .valueMark k =>
    match c.tokens with
    | .value :: _ =>
      (c.turn (.pair (.value k)) 1).nodeUnless [.flowEntry, .flowSequenceEnd] false false
    | _ => some ((c.turn (.pair (.value k)) 0).put .missing)
  | .finish k v => some (c.close (fun _ => .mapping none [(k, v)]) 0)
  | _ => none

/-- One step: what the innermost collection makes of the next token. -/
def step (c : Composer) : Option Composer :=
  match c.frames with
  | [] => none
  | (_, .blockSequence items) :: _ =>
    match c.tokens with
    | .blockEntry :: rest =>
      { c with tokens := rest }.nodeUnless [.blockEntry, .blockEnd] true false
    | .blockEnd :: _ => some (c.close (fun p => .sequence p.tag items.reverse) 1)
    | _ => none
  | (_, .indentless items) :: _ =>
    match c.tokens with
    | .blockEntry :: rest =>
      { c with tokens := rest }.nodeUnless [.blockEntry, .key, .value, .blockEnd] true false
    -- The token that ends it belongs to the mapping around it.
    | _ => some (c.close (fun p => .sequence p.tag items.reverse) 0)
  | (_, .blockMapping entries none) :: _ =>
    match c.tokens with
    | .key :: rest => { c with tokens := rest }.nodeUnless [.key, .value, .blockEnd] true true
    | .blockEnd :: _ => some (c.close (fun p => .mapping p.tag entries.reverse) 1)
    | _ => none
  | (_, .blockMapping _ (some _)) :: _ =>
    match c.tokens with
    | .value :: rest => { c with tokens := rest }.nodeUnless [.key, .value, .blockEnd] true true
    -- The next key comes at once, so this one has no value.
    | _ => some (c.put .missing)
  | (_, .flowSequence items first) :: _ => c.flowSequence items first
  | (_, .flowMapping entries s) :: _ => c.flowMapping entries s
  | (_, .pair s) :: _ => c.pair s

/-- The steps until the root is complete. -/
def run : (steps : Nat) → Composer → Option Composer
  | 0, _ => none
  | steps + 1, c => if c.root.isSome then some c else c.step.bind (run steps)

/-! ## Documents -/

/-- The stems of tag handles that hold in every document. -/
def defaultStems : List (String × String) := [("!", "!"), ("!!", "tag:yaml.org,2002:")]

/-- The directives before a document: the stems of its tag handles, and what follows. A
    handle has one stem, and a version is given once and is 1.1 or 1.2. -/
def directives (versioned : Bool) (stems : List (String × String)) :
    List Token → Option (List (String × String) × List Token)
  | .version major minor :: rest =>
    if versioned || major ≠ 1 || (minor ≠ 1 && minor ≠ 2) then none
    else directives true stems rest
  | .tagStem handle stem :: rest =>
    if (stems.lookup handle).isSome then none
    else directives versioned ((handle, stem) :: stems) rest
  | rest => some (stems, rest)

/-- Whether tokens end a document of which nothing is written. -/
def isEmptyDocument : List Token → Bool
  | [] | .documentEnd :: _ | .documentStart :: _ | .version .. :: _ | .tagStem .. :: _ => true
  | _ => false

/-- The tree of the single document of some tokens, with its anchors. Without tokens it is
    a missing node. -/
def document (tokens : List Token) : Option (Tree × Anchors) := do
  if tokens.isEmpty then return (.missing, .empty)
  let (stems, rest) ← directives false [] tokens
  let explicit := rest.head? == some .documentStart
  -- After directives the document has to be begun by its mark.
  if !explicit && rest.length ≠ tokens.length then none
  let rest := if explicit then rest.drop 1 else rest
  let c : Composer := ⟨rest, [], .empty, stems ++ defaultStems, none⟩
  let c ← if explicit && isEmptyDocument rest then pure (c.put .missing) else c.node true false
  let c ← c.run (8 * tokens.length + 8)
  -- More tokens would be those of a second document.
  if c.tokens.all (· == .documentEnd) then return (← c.root, c.anchors) else none

end Composer

end InferenceGateway.Yaml
