/-!
# White space

The characters with the Unicode property `White_Space`, and the removal of such
characters from both ends of a text. Page tokens and event payloads are trimmed
with this set, which is wider than the white space of ASCII.
-/

namespace InferenceGateway.Text

/-- The code points with the property `White_Space`, as closed ranges. -/
def blankRanges : List (Nat × Nat) :=
  [(0x09, 0x0D), (0x20, 0x20), (0x85, 0x85), (0xA0, 0xA0), (0x1680, 0x1680), (0x2000, 0x200A),
    (0x2028, 0x2029), (0x202F, 0x202F), (0x205F, 0x205F), (0x3000, 0x3000)]

/-- Whether a character is white space. -/
def isBlank (c : Char) : Bool :=
  blankRanges.any fun (low, high) => low ≤ c.toNat && c.toNat ≤ high

/-- A text without the white space at its two ends. -/
def trimBlank (s : List Char) : List Char :=
  ((s.dropWhile isBlank).reverse.dropWhile isBlank).reverse

/-- `trimBlank` on strings. -/
def trim (s : String) : String := String.ofList (trimBlank s.toList)

/-- The ASCII white space that an event stream may end with: the space, the tab,
    the form feed and the two line breaks. -/
def isAsciiBlank (b : UInt8) : Bool :=
  b == 0x20 || b == 0x09 || b == 0x0A || b == 0x0C || b == 0x0D

end InferenceGateway.Text
