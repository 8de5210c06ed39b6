import InferenceGateway.Document.Node

/-!
# The values of YAML scalars

What a scalar means. A plain scalar is a null, a truth value or a number if it is written
like one, and a text otherwise, as the core schema of YAML 1.2 has it. A scalar in quotes or
in a block is a text. A tag of the core schema asks for a type, which the scalar must have;
a local tag is kept.
-/

namespace InferenceGateway.Yaml.Core

open Document Numeral

/-! ## Numbers -/

/-- The value of a digit in a base of at most 16. -/
def digit? (base : Nat) (c : Char) : Option Nat :=
  let d :=
    if '0' ≤ c && c ≤ '9' then some (c.toNat - 48)
    else if 'a' ≤ c && c ≤ 'f' then some (c.toNat - 87)
    else if 'A' ≤ c && c ≤ 'F' then some (c.toNat - 55)
    else none
  d.filter (· < base)

/-- A natural number in a base. -/
def natural? (base : Nat) (cs : List Char) : Option Nat :=
  if cs.isEmpty then none
  else cs.foldlM (fun n c => (digit? base c).map (base * n + ·)) 0

/-- A natural number after one of the marks of a base. -/
def basedNatural? : List Char → Option Nat
  | '0' :: 'x' :: cs => natural? 16 cs
  | '0' :: 'o' :: cs => natural? 8 cs
  | '0' :: 'b' :: cs => natural? 2 cs
  | _ => none

/-- Whether a row of characters is a zero followed by digits; such a row is a text. -/
def hasLeadingZero : List Char → Bool
  | '0' :: c :: cs => (c :: cs).all Char.isDigit
  | _ => false

/-- The integer that a row of characters writes. -/
def integer? (cs : List Char) : Option Int :=
  let (negative, digits) := match cs with
    | '-' :: rest => (true, rest)
    | '+' :: rest => (false, rest)
    | rest => (false, rest)
  let n := match basedNatural? digits with
    | some n => some n
    | none => if hasLeadingZero digits then none else natural? 10 digits
  n.map fun n => if negative then -(n : Int) else n

/-- The digits at the beginning of a row of characters, and the rest. -/
def spanDigits (cs : List Char) : List Nat × List Char :=
  let (ds, rest) := cs.span Char.isDigit
  (ds.map fun c => c.toNat - 48, rest)

/-- The sign and the digits of an exponent, if it is one and nothing follows. -/
def exponent? (cs : List Char) : Option (Bool × List Nat) :=
  let (negative, cs) := match cs with
    | '-' :: rest => (true, rest)
    | '+' :: rest => (false, rest)
    | rest => (false, rest)
  match spanDigits cs with
  | ([], _) => none
  | (ds, []) => some (negative, ds)
  | _ => none

/-- The decimal number that a row of characters writes. -/
def literal? (cs : List Char) : Option Literal := do
  let (negative, cs) := match cs with
    | '-' :: rest => (true, rest)
    | '+' :: rest => (false, rest)
    | rest => (false, rest)
  let (whole, cs) := spanDigits cs
  let (fraction, cs) := match cs with
    | '.' :: rest => let (ds, rest) := spanDigits rest; (some ds, rest)
    | rest => (none, rest)
  if whole.isEmpty && (fraction.getD []).isEmpty then none
  else match cs with
    | [] => some ⟨negative, whole, fraction, none⟩
    | 'e' :: rest | 'E' :: rest => do
      let e ← exponent? rest
      return ⟨negative, whole, fraction, some e⟩
    | _ => none

/-- The number of 64 bits that a text writes. One that is too large is none. -/
def real? (text : String) : Option Binary :=
  if [".inf", ".Inf", ".INF", "+.inf", "+.Inf", "+.INF"].contains text then
    some (.infinite false)
  else if ["-.inf", "-.Inf", "-.INF"].contains text then some (.infinite true)
  else if [".nan", ".NaN", ".NAN"].contains text then some .nan
  else match literal? text.toList with
    | none => none
    | some l => match l.nearest with
      | .infinite _ => none
      | x => some x

/-! ## Scalars -/

/-- Whether an integer can be held in 64 bits, without or with a sign. -/
def fits (n : Int) : Bool := -(Nat.pow 2 63 : Int) ≤ n && n < Nat.pow 2 64

/-- Whether an integer is one of 128 bits; beyond 64 bits such an integer has no value. -/
def isWide (n : Int) : Bool := -(Nat.pow 2 127 : Int) ≤ n && n < Nat.pow 2 128

/-- The number that a text writes, if it writes one. -/
def number? (text : String) : Option Node :=
  let real :=
    let digits := match text.toList with
      | '-' :: rest => rest
      | '+' :: rest => rest
      | rest => rest
    if hasLeadingZero digits then none else (real? text).map fun x => .number (.real x)
  match integer? text.toList with
  | some n =>
    if fits n then some (.number (.integer n))
    else if isWide n then some .unreadable
    else real
  | none => real

/-- The truth value that a text writes. -/
def bool? (text : String) : Option Bool :=
  if ["true", "True", "TRUE"].contains text then some true
  else if ["false", "False", "FALSE"].contains text then some false
  else none

/-- Whether a text writes nothing. -/
def isNull (text : String) : Bool := ["null", "Null", "NULL", "~"].contains text

/-- A plain scalar without a tag that asks for a type. -/
def plain (text : String) : Node :=
  if text.isEmpty || isNull text then .null
  else match bool? text with
    | some b => .bool b
    | none => (number? text).getD (.text text)

/-- A scalar under a tag of the core schema. -/
def typed (tag text : String) : Option Node :=
  if tag == "tag:yaml.org,2002:bool" then (bool? text).map .bool
  else if tag == "tag:yaml.org,2002:int" then
    (integer? text.toList).bind fun n => if fits n then some (.number (.integer n)) else none
  else if tag == "tag:yaml.org,2002:float" then (real? text).map fun x => .number (.real x)
  else if tag == "tag:yaml.org,2002:null" then if isNull text then some .null else none
  else some (.text text)

end InferenceGateway.Yaml.Core
