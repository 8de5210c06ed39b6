import InferenceGateway.Yaml.Source

/-!
# The texts of YAML scalars

A scalar is plain, in quotes, or a block of lines. The line breaks in plain and quoted
scalars are folded: a single one becomes a space, and of several the first is dropped. A
block keeps its line breaks, or folds those between two lines that are not indented
further.
-/

namespace InferenceGateway.Yaml.Scalar

/-! ## Folding -/

/-- White space between two parts of a scalar. -/
structure Gap where
  /-- The spaces and tabs on the line of the first part, in reverse. -/
  blanks : List Char
  /-- Whether the line of the first part has ended. -/
  broken : Bool
  /-- The line break that ended it, unless that was escaped. -/
  first : Option Char
  /-- The further line breaks, in reverse. -/
  more : List Char

namespace Gap

/-- No white space. -/
def empty : Gap := ⟨[], false, none, []⟩

/-- The white space of an escaped line break. -/
def escaped : Gap := ⟨[], true, none, []⟩

/-- Whether there is nothing in a gap. -/
def isEmpty (g : Gap) : Bool := g.blanks.isEmpty && !g.broken

/-- One more space, tab or line break. -/
def add (g : Gap) (c : Char) : Gap :=
  if isBreak c then
    if g.broken then { g with more := c :: g.more } else ⟨[], true, some c, []⟩
  else if g.broken then g
  else { g with blanks := c :: g.blanks }

/-- What the white space stands for, in reverse. -/
def folded (g : Gap) : List Char :=
  if !g.broken then g.blanks
  else match g.first with
    -- A single line feed is a space; with more of them it is dropped, and they stay.
    | some '\n' => if g.more.isEmpty then [' '] else g.more
    | some c => g.more ++ [c]
    | none => g.more

end Gap

/-! ## Plain scalars -/

/-- The rest of a plain scalar, after the characters `out` (in reverse) and the white space
    `gap`: its text, whether it ended on a later line, and what follows. A line that is
    indented by less than `indent` ends it, except in a flow collection. -/
def plain (flow : Bool) (indent : Int) (out : List Char) (gap : Gap) :
    Source → Option (List Char × Bool × Source)
  | [] => some (out.reverse, gap.broken, [])
  | p :: rest =>
    let ended := some (out.reverse, gap.broken, p :: rest)
    let c := p.char
    if isBlank c || isBreak c then
      -- A tab cannot indent a line.
      if c == '\t' && gap.broken && (p.column : Int) < indent then none
      else plain flow indent out (gap.add c) rest
    else if !gap.isEmpty && ((!flow && (p.column : Int) < indent)
        || Source.isDocumentMark (p :: rest) || c == '#') then ended
    -- In a flow collection this colon is neither part of the text nor the mark of a value.
    else if flow && c == ':' && (Source.peek rest).any
        ([',', '?', '[', ']', '\x7b', '\x7d'].contains ·) then none
    else if (c == ':' && Source.isBlankAt rest 0)
        || (flow && [',', '[', ']', '\x7b', '\x7d'].contains c) then ended
    else plain flow indent (c :: (gap.folded ++ out)) .empty rest

/-! ## Quoted scalars -/

/-- The character of an escape of one letter. -/
def escapedChar? : Char → Option Char
  | '0' => some '\x00'
  | 'a' => some '\x07'
  | 'b' => some '\x08'
  | 't' => some '\t'
  | '\t' => some '\t'
  | 'n' => some '\n'
  | 'v' => some '\x0b'
  | 'f' => some '\x0c'
  | 'r' => some '\r'
  | 'e' => some '\x1b'
  | ' ' => some ' '
  | '"' => some '"'
  | '/' => some '/'
  | '\\' => some '\\'
  | 'N' => some '\u0085'
  | '_' => some '\u00a0'
  | 'L' => some '\u2028'
  | 'P' => some '\u2029'
  | _ => none

/-- How many hexadecimal digits follow the letter of an escape. -/
def escapeDigits? : Char → Option Nat
  | 'x' => some 2
  | 'u' => some 4
  | 'U' => some 8
  | _ => none

/-- The value of a hexadecimal digit of either case. -/
def hexDigit? (c : Char) : Option Nat :=
  if '0' ≤ c && c ≤ '9' then some (c.toNat - 48)
  else if 'a' ≤ c && c ≤ 'f' then some (c.toNat - 87)
  else if 'A' ≤ c && c ≤ 'F' then some (c.toNat - 55)
  else none

/-- Where a reader of a quoted scalar stands. -/
inductive Mode where
  | content
  /-- After a backslash. -/
  | escape
  /-- Within the digits of an escape: how many are missing, and their value so far. -/
  | digits (missing value : Nat)
  /-- After a single quote, which ends the scalar unless another follows. -/
  | quote

/-- The rest of a quoted scalar, after the characters `out` (in reverse) and the white space
    `gap`: its text and what follows. Double quotes admit escapes. -/
def quoted (double : Bool) (mode : Mode) (out : List Char) (gap : Gap) :
    Source → Option (List Char × Source)
  | [] => match mode with
    | .quote => some (out.reverse, [])
    | _ => none
  | p :: rest =>
    let c := p.char
    match mode with
    | .quote =>
      if c == '\'' then quoted double .content ('\'' :: out) gap rest
      else some (out.reverse, p :: rest)
    | .escape =>
      if isBreak c then quoted double .content out .escaped rest
      else match escapedChar? c, escapeDigits? c with
        | some e, _ => quoted double .content (e :: out) gap rest
        | none, some n => quoted double (.digits n 0) out gap rest
        | none, none => none
    | .digits missing value =>
      match hexDigit? c with
      | none => none
      | some d =>
        let value := 16 * value + d
        if 1 < missing then quoted double (.digits (missing - 1) value) out gap rest
        else if value.isValidChar then
          quoted double .content (Char.ofNat value :: out) gap rest
        else none
    | .content =>
      if isBlank c || isBreak c then quoted double .content out (gap.add c) rest
      -- A document cannot end within quotes.
      else if Source.isDocumentMark (p :: rest) then none
      else
        let out := gap.folded ++ out
        if double && c == '"' then some (out.reverse, rest)
        else if !double && c == '\'' then quoted double .quote out .empty rest
        else if double && c == '\\' then quoted double .escape out .empty rest
        else quoted double .content (c :: out) .empty rest

/-! ## Block scalars -/

/-- What happens to the line breaks at the end of a block. -/
inductive Chomping where
  /-- One is kept. -/
  | clip
  /-- None is kept. -/
  | strip
  /-- All are kept. -/
  | keep

/-- The rest of the first line of a block: its chomping, its indentation if it is given,
    and the lines that follow. -/
def blockHead (s : Source) : Option (Chomping × Option Nat × Source) := do
  let chomping (s : Source) : Option (Chomping × Source) := match s.peek with
    | some '+' => some (.keep, s.drop 1)
    | some '-' => some (.strip, s.drop 1)
    | _ => none
  let width (s : Source) : Option (Nat × Source) := match s.peek with
    | some c => if c.isDigit then some (c.toNat - 48, s.drop 1) else none
    | none => none
  let (c, w, s) := match chomping s with
    | some (c, s) => match width s with
      | some (w, s) => (c, some w, s)
      | none => (c, none, s)
    | none => match width s with
      | some (w, s) => match chomping s with
        | some (c, s) => (c, some w, s)
        | none => (.clip, some w, s)
      | none => (.clip, none, s)
  if w == some 0 then none else return (c, w, ← s.skipLineEnd)

/-- The greatest number of spaces before the first line with something else in it, and that
    line's own. A tab among them is an error. -/
def blockIndent (widest : Nat) : Source → Option Nat
  | [] => some widest
  | p :: rest =>
    if p.char == ' ' then blockIndent widest rest
    else if p.char == '\t' then none
    else if isBreak p.char then blockIndent (max widest p.column) rest
    else some (max widest p.column)

/-- The lines of a block so far. -/
structure Lines where
  /-- The text in reverse, without the line breaks at its end. -/
  out : List Char
  /-- The break of the last line. -/
  lastBreak : Option Char
  /-- The breaks of the empty lines after it, in reverse. -/
  empty : List Char
  /-- Whether the last line begins with white space. -/
  indented : Bool

/-- The text with the breaks before a further line, which begins with white space or not. -/
def Lines.open (literal : Bool) (l : Lines) (indented : Bool) : Lines :=
  let breaks :=
    -- Only between two lines that are not indented further the breaks are folded.
    if !literal && l.lastBreak == some '\n' && !l.indented && !indented then
      if l.empty.isEmpty then [' '] else l.empty
    else l.empty ++ l.lastBreak.toList
  ⟨breaks ++ l.out, none, [], indented⟩

/-- The lines of a block that are indented by `indent`, and what follows. -/
def blockLines (literal : Bool) (indent : Nat) (inLine : Bool) (l : Lines) :
    Source → Option (Lines × Source)
  | [] => some (l, [])
  | p :: rest =>
    let c := p.char
    if inLine then
      if isBreak c then blockLines literal indent false { l with lastBreak := some c } rest
      else blockLines literal indent true { l with out := c :: l.out } rest
    else if c == ' ' && p.column < indent then blockLines literal indent false l rest
    else if c == '\t' && p.column < indent then none
    else if isBreak c then blockLines literal indent false { l with empty := c :: l.empty } rest
    else if p.column == indent then
      let l := l.open literal (isBlank c)
      blockLines literal indent true { l with out := c :: l.out } rest
    else some (l, p :: rest)

/-- The text of a block. -/
def Lines.text (l : Lines) : Chomping → List Char
  | .clip => (l.lastBreak.toList ++ l.out).reverse
  | .strip => l.out.reverse
  | .keep => (l.empty ++ l.lastBreak.toList ++ l.out).reverse

/-- The block after its indicator: its text and what follows. Without an indentation of its
    own it has that of its first line, and at least one more than the block around it. -/
def block (literal : Bool) (around : Int) (s : Source) : Option (List Char × Source) := do
  let (chomping, width, s) ← blockHead s
  let indent ← match width with
    | some w => pure (if 0 ≤ around then around.toNat + w else w)
    | none => do
      let widest ← blockIndent 0 s
      -- Empty lines may be wider than the first line with a text.
      pure (max (max widest (around + 1).toNat) 1)
  let (l, rest) ← blockLines literal indent false ⟨[], none, [], false⟩ s
  return (l.text chomping, rest)

end InferenceGateway.Yaml.Scalar
