/-!
# UTF-8

Texts as bytes and back. A reader of bytes is a small machine (`Utf8.step`): it stands
between two characters or within one, and finds, byte by byte, characters and *broken*
places, where the bytes so far begin a character that the next byte does not continue.
A strict reading (`Utf8.decode`) refuses broken places and says where they are; a lenient
one (`Utf8.decodeLenient`) puts a replacement character in their stead.
-/

namespace InferenceGateway

/-- A row of bytes. -/
abbrev Bytes := List UInt8

namespace Text.Utf8

/-- What the bytes of a text hold. -/
inductive Piece where
  | char (c : Char)
  /-- So many bytes that begin a character and are not continued. -/
  | broken (length : Nat)
  /-- A character that the end of the bytes cuts off. -/
  | cut
deriving DecidableEq, Repr

/-- Where a reader stands. -/
inductive State where
  | ready
  /-- Within a character: its value so far, the number of bytes that are missing and of
      those seen, and the least and greatest byte that can follow. -/
  | within (value missing seen : Nat) (low high : UInt8)
deriving DecidableEq, Repr

/-- What the first byte of a character says. The bounds of the second byte keep out the
    overlong forms, the surrogates and the values beyond the last character. -/
def lead (b : UInt8) : List Piece × State :=
  if b < 0x80 then ([.char (Char.ofNat b.toNat)], .ready)
  else if b < 0xC2 then ([.broken 1], .ready)
  else if b < 0xE0 then ([], .within (b.toNat - 0xC0) 1 1 0x80 0xBF)
  else if b < 0xF0 then
    ([], .within (b.toNat - 0xE0) 2 1 (if b = 0xE0 then 0xA0 else 0x80)
      (if b = 0xED then 0x9F else 0xBF))
  else if b < 0xF5 then
    ([], .within (b.toNat - 0xF0) 3 1 (if b = 0xF0 then 0x90 else 0x80)
      (if b = 0xF4 then 0x8F else 0xBF))
  else ([.broken 1], .ready)

/-- One byte more. A byte that does not continue a character begins the next. -/
def step : State → UInt8 → List Piece × State
  | .ready, b => lead b
  | .within value missing seen low high, b =>
    if low ≤ b && b ≤ high then
      let value := value * 64 + (b.toNat - 0x80)
      if missing ≤ 1 then ([.char (Char.ofNat value)], .ready)
      else ([], .within value (missing - 1) (seen + 1) 0x80 0xBF)
    else
      let (found, state) := lead b
      (.broken seen :: found, state)

/-- What the end of the bytes means. -/
def finish : State → List Piece
  | .ready => []
  | .within .. => [.cut]

/-- The pieces found by reading on from a state, the last first, and the state reached. -/
def read (bytes : Bytes) (start : List Piece × State) : List Piece × State :=
  bytes.foldl (fun (found, state) b =>
    let (new, state) := step state b
    (new.reverse ++ found, state)) start

/-- The pieces of a row of bytes. -/
def pieces (bytes : Bytes) : List Piece :=
  let (found, state) := read bytes ([], .ready)
  (finish state ++ found).reverse

/-- How a row of bytes fails to be a text. -/
inductive Fault where
  /-- So many bytes from this index are no character. -/
  | broken (length index : Nat)
  /-- The character at this index is cut off. -/
  | cut (index : Nat)
deriving DecidableEq, Repr

/-- The characters of pieces that begin at an index, with the characters before them in
    reverse. -/
def charsOf (index : Nat) (before : List Char) : List Piece → Except Fault (List Char)
  | [] => .ok before.reverse
  | .char c :: rest => charsOf (index + c.utf8Size) (c :: before) rest
  | .broken n :: _ => .error (.broken n index)
  | .cut :: _ => .error (.cut index)

/-- The text that bytes are the UTF-8 form of. -/
def decode (bytes : Bytes) : Except Fault String :=
  (charsOf 0 [] (pieces bytes)).map String.ofList

/-- The character that stands for bytes that are no character. -/
def replacement : Char := '\ufffd'

/-- The character shown for a piece. -/
def Piece.shown : Piece → Char
  | .char c => c
  | _ => replacement

/-- A text for any bytes, with replacement characters where they are broken. -/
def decodeLenient (bytes : Bytes) : String := String.ofList ((pieces bytes).map Piece.shown)

/-- The bytes of a text. -/
def encode (s : String) : Bytes := s.toList.flatMap String.utf8EncodeChar

end Text.Utf8

end InferenceGateway
