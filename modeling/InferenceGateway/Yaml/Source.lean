/-!
# YAML sources

The text of a YAML document as a row of characters, each with its place. A document may
begin with a byte order mark, which is dropped, and holds no control characters. Line
breaks other than the two Unicode separators are read as line feeds.
-/

namespace InferenceGateway.Yaml

/-- A character of a source, with its place. -/
structure Spot where
  char : Char
  index : Nat
  line : Nat
  column : Nat

/-- What is left of a source. -/
abbrev Source := List Spot

/-- Whether a character may stand in a document. -/
def isAllowed (c : Char) : Bool :=
  let n := c.toNat
  n == 0x09 || n == 0x0A || n == 0x0D || (0x20 ≤ n && n ≤ 0x7E) || n == 0x85
    || (0xA0 ≤ n && n ≤ 0xFFFD) || 0x10000 ≤ n

/-- Characters with their line breaks written as line feeds. -/
def unifyBreaks : List Char → List Char
  | '\r' :: '\n' :: rest => '\n' :: unifyBreaks rest
  | '\r' :: rest => '\n' :: unifyBreaks rest
  | '\u0085' :: rest => '\n' :: unifyBreaks rest
  | c :: rest => c :: unifyBreaks rest
  | [] => []

/-- Whether a character ends a line. -/
def isBreak (c : Char) : Bool := c == '\n' || c == '\u2028' || c == '\u2029'

/-- Whether a character is a space or a tab. -/
def isBlank (c : Char) : Bool := c == ' ' || c == '\t'

/-- Characters with their places, from a place on. -/
def placed : (index line column : Nat) → List Char → Source
  | _, _, _, [] => []
  | index, line, column, c :: rest =>
    ⟨c, index, line, column⟩ ::
      if isBreak c then placed (index + 1) (line + 1) 0 rest
      else placed (index + 1) line (column + 1) rest

/-- The source of a text, if all its characters are allowed. -/
def Source.ofString (text : String) : Option Source :=
  let cs := match text.toList with
    | '\ufeff' :: rest => rest
    | cs => cs
  if cs.all isAllowed then some (placed 0 0 0 (unifyBreaks cs)) else none

namespace Source

/-- The next character. -/
def peek (s : Source) : Option Char := s.head?.map Spot.char

/-- The character after so many others. -/
def peekAt (s : Source) (n : Nat) : Option Char := peek (s.drop n)

/-- Whether a space, a tab, a line break or the end comes after so many characters. -/
def isBlankAt (s : Source) (n : Nat) : Bool := (s.peekAt n).all fun c => isBlank c || isBreak c

/-- Whether the source goes on with a row of characters. -/
def startsWith (s : Source) (cs : List Char) : Bool := (s.take cs.length).map Spot.char == cs

/-- Whether three dashes or three points begin a line, and nothing follows them. -/
def isDocumentMark (s : Source) : Bool :=
  s.head?.any (·.column == 0) && (s.startsWith ['-', '-', '-'] || s.startsWith ['.', '.', '.'])
    && s.isBlankAt 3

/-- The source without leading spaces and tabs. -/
def skipBlanks (s : Source) : Source := s.dropWhile fun p => isBlank p.char

/-- The source from the next line break on. -/
def skipToBreak (s : Source) : Source := s.dropWhile fun p => !isBreak p.char

/-- The source after the white space and the comment that may end a line, if nothing else
    does. -/
def skipLineEnd (s : Source) : Option Source :=
  let s : Source := s.skipBlanks
  let s : Source := if s.peek == some '#' then s.skipToBreak else s
  match s with
  | [] => some []
  | p :: rest => if isBreak p.char then some rest else none

/-- The characters of a source as long as they have a property, and the rest. -/
def takeWhile (p : Char → Bool) (s : Source) : List Char × Source :=
  let (front, rest) := s.span fun q => p q.char
  (front.map Spot.char, rest)

end Source

end InferenceGateway.Yaml
