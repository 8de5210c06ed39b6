import InferenceGateway.Yaml.Scalar
import InferenceGateway.Yaml.Token

/-!
# The tokens of a YAML source

The source is cut into tokens from left to right. The scanner keeps the columns of the
blocks that are open, so that indentation opens and closes them, and for the block and for
each flow collection around the current place the place of a token that may turn out to be
a key. A colon after such a token puts the mark of a key, and if need be the start of a
mapping, before it.
-/

namespace InferenceGateway.Yaml

/-- A token that is a key if a colon follows it. -/
structure PossibleKey where
  /-- Whether it must be one, because it stands where the keys of a block stand. -/
  required : Bool
  /-- How many tokens come before it. -/
  position : Nat
  index : Nat
  line : Nat
  column : Nat

/-- The state of cutting a source into tokens. -/
structure Scanner where
  source : Source
  /-- The tokens so far, the last first, and their number. -/
  tokens : List Token
  count : Nat
  /-- The column of the innermost block, `-1` if none is open. -/
  indent : Int
  /-- The columns of the blocks around it, the innermost first. -/
  indents : List Int
  /-- Whether a key may begin here. -/
  keyAllowed : Bool
  /-- The possible key of the block, or of the innermost flow collection. -/
  key : Option PossibleKey
  /-- Those of the flow collections around it and of the block. -/
  outer : List (Option PossibleKey)

namespace Scanner

/-- The scanner before a source. -/
def start (s : Source) : Scanner := ⟨s, [], 0, -1, [], true, none, []⟩

/-- Whether a flow collection is open. -/
def inFlow (s : Scanner) : Bool := !s.outer.isEmpty

/-- Adds a token. -/
def push (s : Scanner) (t : Token) : Scanner :=
  { s with tokens := t :: s.tokens, count := s.count + 1 }

/-- Puts a token before those from a position on. -/
def insert (s : Scanner) (position : Nat) (t : Token) : Scanner :=
  let after := s.count - position
  { s with tokens := s.tokens.take after ++ t :: s.tokens.drop after, count := s.count + 1 }

/-- Goes on after so many characters. -/
def advance (s : Scanner) (n : Nat) : Scanner := { s with source := s.source.drop n }

/-! ## Indentation -/

/-- Closes the blocks from a row of columns on that stand right of a column. -/
def unrollFrom (column : Int) (s : Scanner) (indent : Int) : List Int → Scanner
  | [] =>
    if column < indent then { s.push .blockEnd with indent := -1, indents := [] }
    else { s with indent := indent, indents := [] }
  | around :: rest =>
    if column < indent then unrollFrom column (s.push .blockEnd) around rest
    else { s with indent := indent, indents := around :: rest }

/-- Closes the blocks that stand right of a column. -/
def unroll (s : Scanner) (column : Int) : Scanner :=
  if s.inFlow then s else unrollFrom column s s.indent s.indents

/-- Opens a block at a column, if it stands right of the innermost, with its token at a
    position. -/
def roll (s : Scanner) (column : Nat) (position : Nat) (t : Token) : Scanner :=
  if !s.inFlow && s.indent < column then
    { s.insert position t with indents := s.indent :: s.indents, indent := column }
  else s

/-! ## Possible keys -/

/-- Drops the possible key of the current level, unless it must be one. -/
def dropKey (s : Scanner) : Option Scanner :=
  if s.key.any (·.required) then none else some { s with key := none }

/-- Notes that the next token may be a key. -/
def saveKey (s : Scanner) (p : Spot) : Option Scanner :=
  if s.keyAllowed then do
    -- In a block mapping whatever begins at its column has to be a key.
    let required := !s.inFlow && s.indent == p.column
    let s ← s.dropKey
    return { s with key := some ⟨required, s.count, p.index, p.line, p.column⟩ }
  else some s

/-- The greatest distance of a colon from the beginning of its key. -/
def keyReach : Nat := 1024

/-- Whether a place is too far behind a possible key, or on a later line. -/
def isStale (k : PossibleKey) (p : Spot) : Bool := k.line < p.line || k.index + keyReach < p.index

/-- A possible key as seen from a later place; none of its errors is passed over. -/
def refreshKey (p : Spot) (k : Option PossibleKey) : Option (Option PossibleKey) :=
  match k with
  | some k =>
    if isStale k p then (if k.required then none else some none) else some (some k)
  | none => some none

/-- Drops the possible keys that are too far behind. -/
def dropStaleKeys (s : Scanner) (p : Spot) : Option Scanner := do
  return { s with key := ← refreshKey p s.key, outer := ← s.outer.mapM (refreshKey p) }

/-! ## White space -/

/-- The source from the next token on, and whether a key may begin there. A new line allows
    one, and tabs can come only where none can begin. -/
def skipSpace (flow : Bool) (keyAllowed comment : Bool) : Source → Source × Bool
  | [] => ([], keyAllowed)
  | p :: rest =>
    if isBreak p.char then skipSpace flow (keyAllowed || !flow) false rest
    else if comment then skipSpace flow keyAllowed true rest
    -- A byte order mark at the beginning of a line counts as a space.
    else if p.char == ' ' || (p.char == '\t' && (flow || !keyAllowed))
        || (p.char == '\ufeff' && p.column == 0) then
      skipSpace flow keyAllowed false rest
    else if p.char == '#' then skipSpace flow keyAllowed true rest
    else (p :: rest, keyAllowed)

/-! ## Tokens -/

/-- A token of one character that stands in the way of a key. -/
def mark (s : Scanner) (keyAllowed : Bool) (width : Nat) (t : Token) : Option Scanner := do
  let s ← s.dropKey
  return ({ s with keyAllowed := keyAllowed }.push t).advance width

/-- A directive, or the start or the end of a document: it closes all blocks. -/
def documentMark (s : Scanner) (t : Token) (rest : Source) : Option Scanner := do
  let s ← (s.unroll (-1)).dropKey
  return { s with keyAllowed := false, source := rest }.push t

/-- The start of a flow collection. -/
def openFlow (s : Scanner) (p : Spot) (t : Token) : Option Scanner := do
  let s ← s.saveKey p
  let s := { s with key := none, outer := s.key :: s.outer, keyAllowed := true }
  return (s.push t).advance 1

/-- The end of a flow collection. -/
def closeFlow (s : Scanner) (t : Token) : Option Scanner := do
  let s ← s.dropKey
  -- The collection as a whole may be a key, and its place was kept on the level around it.
  let s := match s.outer with
    | k :: outer => { s with key := k, outer := outer }
    | [] => s
  return ({ s with keyAllowed := false }.push t).advance 1

/-- The dash of an entry. -/
def blockEntry (s : Scanner) (p : Spot) : Option Scanner :=
  if s.inFlow then s.mark true 1 .blockEntry
  else if s.keyAllowed then (s.roll p.column s.count .blockSequenceStart).mark true 1 .blockEntry
  else none

/-- The question mark of a key. -/
def explicitKey (s : Scanner) (p : Spot) : Option Scanner :=
  if s.inFlow then s.mark false 1 .key
  else if s.keyAllowed then (s.roll p.column s.count .blockMappingStart).mark true 1 .key
  else none

/-- The colon of a value. -/
def value (s : Scanner) (p : Spot) : Option Scanner :=
  match s.key with
  | some k =>
    -- The token before the colon is a key after all; a mapping begins with it if it stands
    -- further right than the block around it.
    let s := (s.insert k.position .key).roll k.column k.position .blockMappingStart
    some (({ s with key := none, keyAllowed := false }.push .value).advance 1)
  | none =>
    -- There is no key before the colon: it is missing, or it came after a question mark.
    if s.inFlow then some (({ s with keyAllowed := false }.push .value).advance 1)
    else if s.keyAllowed then
      some (({ s.roll p.column s.count .blockMappingStart with
        keyAllowed := true }.push .value).advance 1)
    else none

/-- A token that may be a key, or its beginning. -/
def content (s : Scanner) (p : Spot) (scanned : Option (Token × Source)) : Option Scanner := do
  let s ← s.saveKey p
  let (t, rest) ← scanned
  return { s with keyAllowed := false, source := rest }.push t

/-- A block scalar, which is never a key. -/
def blockScalar (s : Scanner) (literal : Bool) : Option Scanner := do
  let s ← s.dropKey
  let (text, rest) ← Scalar.block literal s.indent (s.source.drop 1)
  -- The block ends with a line, so the next line may begin with a key.
  return { s with keyAllowed := true, source := rest }.push (.scalar (String.ofList text) false)

/-- A plain scalar. One that ends on a later line lets a key begin there. -/
def plainScalar (s : Scanner) (p : Spot) : Option Scanner := do
  let s ← s.saveKey p
  let (text, later, rest) ← Scalar.plain s.inFlow (s.indent + 1) [] .empty s.source
  return { s with keyAllowed := later, source := rest }.push (.scalar (String.ofList text) true)

/-- The characters that begin other tokens. -/
def indicators : List Char := ['-', '?', ':', ',', '[', ']', '\x7b', '\x7d', '#', '&', '*', '!',
  '|', '>', '\'', '"', '%', '@', '\x60']

/-- Whether a character may begin a plain scalar, whatever follows it. -/
def beginsPlain (c : Char) : Bool := !isBlank c && !isBreak c && !indicators.contains c

/-- The token at the beginning of the source. -/
def token (s : Scanner) (p : Spot) (rest : Source) : Option Scanner :=
  let c := p.char
  let source := s.source
  let alone := rest.isBlankAt 0
  -- What can only stand at the beginning of a line comes before the marks of one character.
  if p.column == 0 && c == '%' then do
    let (t, rest) ← Token.scanDirective source
    s.documentMark t rest
  else if source.isDocumentMark then
    s.documentMark (if c == '-' then .documentStart else .documentEnd) (rest.drop 2)
  else if c == '[' then s.openFlow p .flowSequenceStart
  else if c == '\x7b' then s.openFlow p .flowMappingStart
  else if c == ']' then s.closeFlow .flowSequenceEnd
  else if c == '\x7d' then s.closeFlow .flowMappingEnd
  else if c == ',' then s.mark true 1 .flowEntry
  else if c == '-' && alone then s.blockEntry p
  else if c == '?' && (s.inFlow || alone) then s.explicitKey p
  else if c == ':' && (s.inFlow || alone) then s.value p
  else if c == '*' then s.content p ((Token.name rest).map fun (n, r) => (.alias n, r))
  else if c == '&' then s.content p ((Token.name rest).map fun (n, r) => (.anchor n, r))
  else if c == '!' then s.content p (Token.scanTag s.inFlow source)
  else if c == '|' && !s.inFlow then s.blockScalar true
  else if c == '>' && !s.inFlow then s.blockScalar false
  else if c == '\'' || c == '"' then
    s.content p ((Scalar.quoted (c == '"') .content [] .empty rest).map fun (text, r) =>
      (.scalar (String.ofList text) false, r))
  else if beginsPlain c || (c == '-' && !rest.peek.any isBlank)
      || (!s.inFlow && (c == '?' || c == ':') && !alone) then s.plainScalar p
  else none

/-- The tokens up to the next place where one begins, and it. -/
def next (s : Scanner) : Option Scanner :=
  let (source, keyAllowed) := skipSpace s.inFlow s.keyAllowed false s.source
  let s := { s with source := source, keyAllowed := keyAllowed }
  match source with
  | [] => some s
  | p :: rest => do ((← s.dropStaleKeys p).unroll p.column).token p rest

/-- The tokens of the source, in reverse. At its end all blocks are closed. -/
def run : (steps : Nat) → Scanner → Option (List Token)
  | 0, _ => none
  | steps + 1, s => do
    let s ← s.next
    if s.source.isEmpty then
      let s := s.unroll (-1)
      -- A key that has to be one has not got its colon.
      if (s.key :: s.outer).any fun k => k.any (·.required) then none else return s.tokens
    else run steps s

end Scanner

/-- The tokens of a source. Every step but the last takes a character. -/
def tokens (s : Source) : Option (List Token) :=
  ((Scanner.start s).run (s.length + 1)).map List.reverse

end InferenceGateway.Yaml
