import InferenceGateway.Text.Percent

/-!
# Hosts

The host in an address, in its normal form: a name in lower case, or a number. A host that
ends in a number is one of four bytes, and a host in square brackets is one of sixteen. Names
are those of ASCII; others, which would have to be converted, are refused.
-/

namespace InferenceGateway.Http.Host

/-! ## Numbers -/

/-- The value of a hexadecimal digit of either case. -/
def digit? (c : Char) : Option Nat :=
  let c := c.toLower
  if c.isDigit then some (c.toNat - '0'.toNat)
  else if 'a' ≤ c && c ≤ 'f' then some (c.toNat - 'a'.toNat + 10)
  else none

/-- The number that digits of a base write. -/
def number? (base : Nat) (digits : List Char) : Option Nat :=
  digits.foldlM (fun n c => do
    let d ← digit? c
    if d < base then some (base * n + d) else none) 0

/-! ## Four bytes -/

/-- The value of a part of a numeric host: decimal, or octal or hexadecimal after its mark. -/
def numericPart? (s : String) : Option Nat :=
  match s.toList with
  | '0' :: 'x' :: cs | '0' :: 'X' :: cs => number? 16 cs
  | '0' :: c :: cs => number? 8 (c :: cs)
  | [] => none
  | cs => number? 10 cs

/-- The parts of a host that is a number, without the empty part after a last point. -/
def parts (host : String) : List String :=
  let parts := (Text.splitAt '.' host.toList).map String.ofList
  if 1 < parts.length && parts.getLast? == some "" then parts.dropLast else parts

/-- Whether a host ends in a number; then it must be an address of four bytes. -/
def endsInNumber (host : String) : Bool :=
  (parts host).getLast?.any fun s =>
    (!s.isEmpty && s.toList.all Char.isDigit) || (numericPart? s).isSome

/-- Four bytes with points between them. -/
def fourBytes (n : Nat) : String :=
  ".".intercalate
    [toString (n / Nat.pow 256 3 % 256), toString (n / Nat.pow 256 2 % 256),
      toString (n / 256 % 256), toString (n % 256)]

/-- The address of four bytes that a host writes. The last part fills the bytes that are
    left. -/
def numeric? (host : String) : Option String := do
  let parts ← (parts host).mapM numericPart?
  let last ← parts.getLast?
  let front := parts.dropLast
  if 3 < front.length || front.any (255 < ·) || Nat.pow 256 (4 - front.length) ≤ last then none
  else
    let high := front.foldl (fun n part => 256 * n + part) 0
    return fourBytes (high * Nat.pow 256 (4 - front.length) + last)

/-! ## Sixteen bytes -/

/-- A number of two bytes: four hexadecimal digits at most. -/
def pair? (digits : List Char) : Option Nat :=
  if digits.isEmpty || 4 < digits.length then none else number? 16 digits

/-- A byte in decimal digits, which do not begin with a zero that need not be written. -/
def byte? (digits : List Char) : Option Nat :=
  if digits.isEmpty || (1 < digits.length && digits.head? == some '0') then none
  else (number? 10 digits).filter (· < 256)

/-- The numbers of two bytes that the last part writes: one, or two by four bytes with points
    between them. -/
def lastPairs? (part : List Char) : Option (List Nat) :=
  if part.contains '.' then
    match (Text.splitAt '.' part).mapM byte? with
    | some [a, b, c, d] => some [256 * a + b, 256 * c + d]
    | _ => none
  else (pair? part).map ([·])

/-- The numbers of two bytes that parts write. -/
def pairs? (parts : List (List Char)) : Option (List Nat) := do
  let front ← parts.dropLast.mapM pair?
  match parts.getLast? with
  | none => return front
  | some last => return front ++ (← lastPairs? last)

/-- The parts between colons. Nothing has none. -/
def colonParts (cs : List Char) : List (List Char) :=
  if cs.isEmpty then [] else Text.splitAt ':' cs

/-- What stands before two colons in a row, and what stands after them. -/
def atGap? : List Char → Option (List Char × List Char)
  | ':' :: ':' :: rest => some ([], rest)
  | c :: rest => (atGap? rest).map fun (before, after) => (c :: before, after)
  | [] => none

/-- The eight numbers of an address of sixteen bytes. Two colons in a row stand for zeros that are
    left out. -/
def sixteenBytes? (cs : List Char) : Option (List Nat) := do
  match atGap? cs with
  | none =>
    let pairs ← pairs? (colonParts cs)
    if pairs.length = 8 then some pairs else none
  | some (before, after) =>
    let front ← (colonParts before).mapM pair?
    let back ← pairs? (colonParts after)
    if front.length + back.length < 8 then
      some (front ++ List.replicate (8 - (front.length + back.length)) 0 ++ back)
    else none

/-- How many zeros in a row begin at a place. -/
def zerosAt (pairs : List Nat) (i : Nat) : Nat := ((pairs.drop i).takeWhile (· = 0)).length

/-- Where the longest row of zeros begins, the first one of several. -/
def longestZeros (pairs : List Nat) : Nat :=
  (List.range pairs.length).foldl
    (fun best i => if zerosAt pairs best < zerosAt pairs i then i else best) 0

/-- Numbers in hexadecimal digits with colons between them. -/
def pairText (pairs : List Nat) : String :=
  ":".intercalate (pairs.map fun n => String.ofList (Nat.toDigits 16 n))

/-- An address of sixteen bytes, with its longest row of zeros left out. A single zero stays. -/
def compressed (pairs : List Nat) : String :=
  let start := longestZeros pairs
  let length := zerosAt pairs start
  if length < 2 then pairText pairs
  else pairText (pairs.take start) ++ "::" ++ pairText (pairs.drop (start + length))

/-- The host that is written in square brackets. -/
def bracketed? (written : List Char) : Option String :=
  (sixteenBytes? written).map fun pairs => "[" ++ compressed pairs ++ "]"

/-! ## Names -/

/-- The characters that no host holds. -/
def forbidden : List Char := ['#', '/', ':', '<', '>', '?', '@', '[', '\\', ']', '^', '|', '%']

/-- Whether a character may stand in the name of a host. -/
def isNameChar (c : Char) : Bool :=
  0x20 < c.toNat && c.toNat < 0x7F && !forbidden.contains c

/-- The host that is written, without brackets. -/
def plain? (written : List Char) : Option String :=
  match Text.Utf8.decode (Text.percentDecode (Text.Utf8.encode (String.ofList written))) with
  | .error _ => none
  | .ok host =>
    let host := host.toLower
    if host.isEmpty || !host.toList.all isNameChar then none
    else if endsInNumber host then numeric? host
    else some host

end InferenceGateway.Http.Host
