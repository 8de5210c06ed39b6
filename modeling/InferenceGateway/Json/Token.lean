import InferenceGateway.Document.Node
import InferenceGateway.Text.Utf8

/-!
# JSON tokens

A JSON text as a row of tokens. The bytes of the text drive a machine (`Token.step`) that
stands between two tokens or within one. Where the bytes are no token the row ends in a
`fault`, and the machine takes no notice of what follows.
-/

namespace InferenceGateway.Json

open Document Numeral

/-- A token of a JSON text. -/
inductive Token where
  | openArray
  | closeArray
  | openObject
  | closeObject
  | comma
  | colon
  /-- A word or a number. -/
  | scalar (value : Node)
  | string (value : Node)
  /-- No token begins or goes on here. -/
  | fault
deriving Inhabited

namespace Token

/-- The parts of a number: what has been read of it so far. -/
inductive Part where
  /-- The sign; a digit must follow. -/
  | sign
  /-- A leading zero; no digit may follow. -/
  | zero
  | whole
  /-- The point; a digit must follow. -/
  | point
  | fraction
  /-- The letter of the exponent; a sign or a digit must follow. -/
  | mark
  /-- The sign of the exponent; a digit must follow. -/
  | exponentSign
  | exponent
deriving DecidableEq

/-- The text of a number so far, its digits in reverse. -/
structure Draft where
  part : Part
  negative : Bool
  whole : List Nat
  fraction : List Nat
  exponentNegative : Bool
  exponent : List Nat

/-- The text of a string so far. -/
structure Scribe where
  /-- The bytes of the string in reverse. -/
  bytes : Bytes
  /-- A first half of a surrogate pair that waits for the second. -/
  half : Option Nat
  /-- Whether a half of a surrogate pair stood alone. -/
  broken : Bool

/-- Where the machine stands in the text. -/
inductive Mode where
  | between
  /-- Within a word, with the bytes that must follow. -/
  | word (rest : Bytes) (value : Node)
  | number (draft : Draft)
  | string (s : Scribe)
  /-- After a backslash in a string. -/
  | escape (s : Scribe)
  /-- Within the digits of a `\u` escape: how many are missing, and their value so far. -/
  | unicode (s : Scribe) (missing value : Nat)
  /-- After a fault. -/
  | lost

/-- The value of a decimal digit. -/
def digit? (b : UInt8) : Option Nat :=
  if 0x30 ≤ b && b ≤ 0x39 then some (b.toNat - 0x30) else none

/-- The value of a hexadecimal digit of either case. -/
def hexDigit? (b : UInt8) : Option Nat :=
  match digit? b with
  | some d => some d
  | none =>
    if 0x61 ≤ b && b ≤ 0x66 then some (b.toNat - 0x57)
    else if 0x41 ≤ b && b ≤ 0x46 then some (b.toNat - 0x37)
    else none

/-! ## Numbers -/

/-- A number that begins with a sign or with a digit. -/
def Draft.start (b : UInt8) : Option Draft :=
  if b = 0x2D then some ⟨.sign, true, [], [], false, []⟩
  else (digit? b).map fun d => ⟨if d = 0 then .zero else .whole, false, [d], [], false, []⟩

/-- The number with one byte more, if the byte belongs to it. -/
def Draft.extend (n : Draft) (b : UInt8) : Option Draft :=
  match n.part, digit? b with
  | .sign, some d => some { n with part := if d = 0 then .zero else .whole, whole := [d] }
  | .whole, some d => some { n with whole := d :: n.whole }
  | .point, some d => some { n with part := .fraction, fraction := [d] }
  | .fraction, some d => some { n with fraction := d :: n.fraction }
  | .mark, some d => some { n with part := .exponent, exponent := [d] }
  | .exponentSign, some d => some { n with part := .exponent, exponent := [d] }
  | .exponent, some d => some { n with exponent := d :: n.exponent }
  | .zero, some _ => none
  | part, none =>
    if b = 0x2E && (part = .zero || part = .whole) then some { n with part := .point }
    else if (b = 0x65 || b = 0x45) && (part = .zero || part = .whole || part = .fraction) then
      some { n with part := .mark }
    else if (b = 0x2B || b = 0x2D) && part = .mark then
      some { n with part := .exponentSign, exponentNegative := b = 0x2D }
    else none

/-- Whether a number can end here. A digit after a leading zero makes it none. -/
def Draft.canEnd (n : Draft) : Bool :=
  n.part = .zero || n.part = .whole || n.part = .fraction || n.part = .exponent

/-- The written number. -/
def Draft.literal (n : Draft) : Literal where
  negative := n.negative
  whole := n.whole.reverse
  fraction := if n.fraction.isEmpty then none else some n.fraction.reverse
  exponent := if n.exponent.isEmpty then none else some (n.exponentNegative, n.exponent.reverse)

/-- The value of a written number. -/
def Draft.value (n : Draft) : Node :=
  match n.literal.jsonNumber with
  | some x => .number x
  | none => .unreadable

/-! ## Strings -/

/-- The string with bytes added. A waiting half of a pair has then stood alone. -/
def Scribe.add (s : Scribe) (bytes : Bytes) : Scribe :=
  ⟨bytes.reverse ++ s.bytes, none, s.broken || s.half.isSome⟩

/-- The string with a character added that an escape writes by its number. Two halves of a
    surrogate pair in a row make one character. -/
def Scribe.addUnit (s : Scribe) (n : Nat) : Scribe :=
  -- A second half completes a pair or stands alone; a first half waits.
  if 0xDC00 ≤ n && n ≤ 0xDFFF then
    match s.half with
    | some high =>
      { s with
        bytes := (String.utf8EncodeChar
          (Char.ofNat (0x10000 + (high - 0xD800) * 0x400 + (n - 0xDC00)))).reverse ++ s.bytes
        half := none }
    | none => { s with broken := true }
  else if 0xD800 ≤ n && n ≤ 0xDBFF then ⟨s.bytes, some n, s.broken || s.half.isSome⟩
  else s.add (String.utf8EncodeChar (Char.ofNat n))

/-- The text of a string at its closing quote. -/
def Scribe.value (s : Scribe) : Node :=
  if s.broken || s.half.isSome then .unreadable
  else match Text.Utf8.decode s.bytes.reverse with
    | .ok str => .text str
    | .error _ => .unreadable

/-- The byte that a letter after a backslash stands for. -/
def escaped? (b : UInt8) : Option UInt8 :=
  if b = 0x22 || b = 0x5C || b = 0x2F then some b
  else if b = 0x62 then some 0x08
  else if b = 0x66 then some 0x0C
  else if b = 0x6E then some 0x0A
  else if b = 0x72 then some 0x0D
  else if b = 0x74 then some 0x09
  else none

/-! ## The machine -/

/-- Whether a byte is white space of JSON. -/
def isSpace (b : UInt8) : Bool := b = 0x20 || b = 0x0A || b = 0x0D || b = 0x09

/-- A byte between two tokens. -/
def begin (b : UInt8) : List Token × Mode :=
  if isSpace b then ([], .between)
  else if b = 0x5B then ([.openArray], .between)
  else if b = 0x5D then ([.closeArray], .between)
  else if b = 0x7B then ([.openObject], .between)
  else if b = 0x7D then ([.closeObject], .between)
  else if b = 0x2C then ([.comma], .between)
  else if b = 0x3A then ([.colon], .between)
  else if b = 0x22 then ([], .string ⟨[], none, false⟩)
  else if b = 0x6E then ([], .word [0x75, 0x6C, 0x6C] .null)
  else if b = 0x74 then ([], .word [0x72, 0x75, 0x65] (.bool true))
  else if b = 0x66 then ([], .word [0x61, 0x6C, 0x73, 0x65] (.bool false))
  else match Draft.start b with
    | some n => ([], .number n)
    | none => ([.fault], .lost)

/-- One byte more: the tokens that it ends, and where the machine stands then. -/
def step : Mode → UInt8 → List Token × Mode
  | .between, b => begin b
  | .word rest value, b =>
    match rest with
    | [c] => if b = c then ([.scalar value], .between) else ([.fault], .lost)
    | c :: rest => if b = c then ([], .word rest value) else ([.fault], .lost)
    | [] => ([.fault], .lost)
  | .number n, b =>
    match n.extend b with
    | some n => ([], .number n)
    | none =>
      -- The number has ended, and the byte begins the next token.
      if n.canEnd && !(n.part = .zero && (digit? b).isSome) then
        let (tokens, mode) := begin b
        (.scalar n.value :: tokens, mode)
      else ([.fault], .lost)
  | .string s, b =>
    if b = 0x22 then ([.string s.value], .between)
    else if b = 0x5C then ([], .escape s)
    else if b < 0x20 then ([.fault], .lost)
    else ([], .string (s.add [b]))
  | .escape s, b =>
    if b = 0x75 then ([], .unicode s 4 0)
    else match escaped? b with
      | some c => ([], .string (s.add [c]))
      | none => ([.fault], .lost)
  | .unicode s missing value, b =>
    match hexDigit? b with
    | some d =>
      if missing ≤ 1 then ([], .string (s.addUnit (16 * value + d)))
      else ([], .unicode s (missing - 1) (16 * value + d))
    | none => ([.fault], .lost)
  | .lost, _ => ([], .lost)

/-- What the end of the text means. -/
def finish : Mode → List Token
  | .between | .lost => []
  | .number n => if n.canEnd then [.scalar n.value] else [.fault]
  | _ => [.fault]

/-- The tokens of the bytes read on from some mode, the last first, and the mode reached. -/
def read (bytes : Bytes) (start : List Token × Mode) : List Token × Mode :=
  bytes.foldl (fun (found, mode) b =>
    let (new, mode) := step mode b
    (new.reverse ++ found, mode)) start

/-- The tokens of a text. -/
def ofBytes (bytes : Bytes) : List Token :=
  let (found, mode) := read bytes ([], .between)
  ((finish mode).reverse ++ found).reverse

end Token

end InferenceGateway.Json
