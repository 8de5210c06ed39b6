import InferenceGateway.Yaml.Source
import InferenceGateway.Text.Percent

/-!
# YAML tokens

The tokens of a document, and how the tokens with a name in them are read: anchors and
aliases, tags, and the directives before a document.
-/

namespace InferenceGateway.Yaml

/-- A token of a document. The start and the end of a block are tokens too, although only
    indentation shows them. -/
inductive Token where
  | version (major minor : Nat)
  | tagStem (handle stem : String)
  | documentStart
  | documentEnd
  | blockSequenceStart
  | blockMappingStart
  | blockEnd
  | flowSequenceStart
  | flowSequenceEnd
  | flowMappingStart
  | flowMappingEnd
  | blockEntry
  | flowEntry
  | key
  | value
  | alias (name : String)
  | anchor (name : String)
  | tag (handle suffix : String)
  | scalar (text : String) (plain : Bool)
deriving DecidableEq, Inhabited

namespace Token

/-- Whether a character may stand in a name. -/
def isNameChar (c : Char) : Bool :=
  ('a' ≤ c && c ≤ 'z') || ('A' ≤ c && c ≤ 'Z') || ('0' ≤ c && c ≤ '9') || c == '-' || c == '_'

/-- The name of an anchor or an alias, and what follows. -/
def name (s : Source) : Option (String × Source) :=
  let (cs, rest) := s.takeWhile isNameChar
  let ends := rest.isBlankAt 0 ||
    rest.peek.any fun c => ['?', ':', ',', ']', '\x7d', '%', '@', '\x60'].contains c
  if !cs.isEmpty && ends then some (String.ofList cs, rest) else none

/-! ## Tags -/

/-- Whether a character may stand in a tag, `verbatim` or not. -/
def isTagChar (verbatim : Bool) (c : Char) : Bool :=
  isNameChar c || [';', '/', '?', ':', '@', '&', '=', '+', '$', '.', '%', '!', '~', '*', '\'',
    '(', ')'].contains c || (verbatim && [',', '[', ']'].contains c)

/-- The bytes of a tag, whose percent signs must begin percent-encoded bytes. -/
def tagBytes : List Char → Option Bytes
  | '%' :: high :: low :: rest => do
    let h ← Text.hexDigit? (UInt8.ofNat high.toNat)
    let l ← Text.hexDigit? (UInt8.ofNat low.toNat)
    return (h * 16 + l) :: (← tagBytes rest)
  | '%' :: _ => none
  | c :: rest => do return UInt8.ofNat c.toNat :: (← tagBytes rest)
  | [] => some []

/-- The text of a tag. -/
def tagText (verbatim : Bool) (s : Source) : Option (String × Source) := do
  let (cs, rest) := s.takeWhile (isTagChar verbatim)
  match Text.Utf8.decode (← tagBytes cs) with
  | .ok text => some (text, rest)
  | .error _ => none

/-- The handle of a tag: an exclamation mark, and possibly a name and another. -/
def tagHandle (s : Source) : Option (String × Source) :=
  match s with
  | p :: rest =>
    if p.char == '!' then
      let (cs, rest) := Source.takeWhile isNameChar rest
      if rest.peek == some '!' then some (String.ofList ('!' :: cs ++ ['!']), rest.drop 1)
      else some (String.ofList ('!' :: cs), rest)
    else none
  | [] => none

/-- Whether a handle is delimited by two exclamation marks. -/
def isDelimited (handle : String) : Bool := 1 < handle.length && handle.endsWith "!"

/-- The handle and the suffix of a tag. A tag that is a single exclamation mark is all
    suffix, and so is a verbatim tag. -/
def tagParts (s : Source) : Option ((String × String) × Source) := do
  if s.peekAt 1 == some '<' then
    let (text, rest) ← tagText true (s.drop 2)
    if text.isEmpty || rest.peek != some '>' then none
    else return (("", text), rest.drop 1)
  else
    let (handle, rest) ← tagHandle s
    let (text, rest) ← tagText false rest
    if isDelimited handle then
      if text.isEmpty then none else return ((handle, text), rest)
    else
      let suffix := String.ofList (handle.toList.drop 1) ++ text
      return (if suffix.isEmpty then ("", "!") else ("!", suffix), rest)

/-- The tag at the beginning of a source. In a flow collection a comma may follow it. -/
def scanTag (flow : Bool) (s : Source) : Option (Token × Source) := do
  let ((handle, suffix), rest) ← tagParts s
  if rest.isBlankAt 0 || (flow && rest.peek == some ',') then
    return (.tag handle suffix, rest)
  else none

/-! ## Directives -/

/-- A number of a version, of at most nine digits. -/
def versionNumber (s : Source) : Option (Nat × Source) :=
  let (cs, rest) := s.takeWhile Char.isDigit
  if cs.isEmpty || 9 < cs.length then none
  else some (cs.foldl (fun n c => 10 * n + (c.toNat - 48)) 0, rest)

/-- The directive at the beginning of a source, with the rest of its line. -/
def scanDirective (s : Source) : Option (Token × Source) := do
  let (cs, rest) := Source.takeWhile isNameChar (s.drop 1)
  if !rest.isBlankAt 0 then none
  else if cs == ['Y', 'A', 'M', 'L'] then
    let (major, rest) ← versionNumber rest.skipBlanks
    if rest.peek != some '.' then none
    else
      let (minor, rest) ← versionNumber (rest.drop 1)
      return (.version major minor, ← rest.skipLineEnd)
  else if cs == ['T', 'A', 'G'] then
    let (handle, rest) ← tagHandle rest.skipBlanks
    if !(handle == "!" || isDelimited handle) || !rest.peek.any isBlank then none
    else
      let (stem, rest) ← tagText true rest.skipBlanks
      if stem.isEmpty || !rest.isBlankAt 0 then none
      else return (.tagStem handle stem, ← rest.skipLineEnd)
  else none

end Token

end InferenceGateway.Yaml
