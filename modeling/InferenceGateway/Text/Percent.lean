import InferenceGateway.Text.Utf8

/-!
# Percent encoding

Bytes written as `%` and two hexadecimal digits, in the segments of a path and in the
parameters of a query. A `%` that no two digits follow stands for itself.
-/

namespace InferenceGateway.Text

/-- The value of a hexadecimal digit of either case. -/
def hexDigit? (b : UInt8) : Option UInt8 :=
  if 0x30 ≤ b && b ≤ 0x39 then some (b - 0x30)
  else if 0x41 ≤ b && b ≤ 0x46 then some (b - 0x37)
  else if 0x61 ≤ b && b ≤ 0x66 then some (b - 0x57)
  else none

/-- The byte that `%` and two hexadecimal digits write. -/
def percentByte? (mark high low : UInt8) : Option UInt8 :=
  if mark = 0x25 then do return (← hexDigit? high) * 16 + (← hexDigit? low) else none

/-- Bytes with their percent-encoded bytes decoded. -/
def percentDecode : Bytes → Bytes
  | b :: high :: low :: rest =>
    match percentByte? b high low with
    | some v => v :: percentDecode rest
    | none => b :: percentDecode (high :: low :: rest)
  | bytes => bytes

/-- The text of a path segment. -/
def decodeSegment (segment : String) : Except Utf8.Fault String :=
  Utf8.decode (percentDecode (Utf8.encode segment))

/-- A row of bytes or characters cut at every occurrence of one of them. -/
def splitAt {α : Type} [DecidableEq α] (separator : α) (row : List α) : List (List α) :=
  row.foldr (fun x parts =>
    if x = separator then [] :: parts
    else match parts with
      | [] => [[x]]
      | part :: rest => (x :: part) :: rest) [[]]

namespace Form

/-- The text of a name or a value in a query: `+` is a space. -/
def decode (bytes : Bytes) : String :=
  Utf8.decodeLenient (percentDecode (bytes.map fun b => if b = 0x2B then 0x20 else b))

/-- The name and the value of one parameter: without a `=` the value is empty. -/
def parameter (bytes : Bytes) : String × String :=
  (decode (bytes.takeWhile (· ≠ 0x3D)), decode ((bytes.dropWhile (· ≠ 0x3D)).drop 1))

/-- The parameters of a query, in order. -/
def parameters (query : String) : List (String × String) :=
  ((splitAt 0x26 (Utf8.encode query)).filter (! ·.isEmpty)).map parameter

end Form

end InferenceGateway.Text
