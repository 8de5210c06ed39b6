import InferenceGateway.Numeral.Shortest

/-!
# Number texts

How a binary number is written: the digits of its shortest decimal, placed by a layout.
A layout says between which powers of ten a number is written with its point in place,
and whether a whole number keeps a point.
-/

namespace InferenceGateway.Numeral

/-- Where a text of numbers puts the point. -/
structure Layout where
  /-- Numbers below `10 ^ smallest` are written with an exponent. -/
  smallest : Option Int
  /-- Numbers of `10 ^ largest` and more are written with an exponent. -/
  largest : Option Int
  /-- Whether a whole number ends in `.0`. -/
  pointed : Bool

namespace Layout

/-- The layout of numbers of 64 bits in JSON. -/
def double : Layout := ⟨some (-5), some 16, true⟩

/-- The layout of numbers of 32 bits in JSON. -/
def single : Layout := ⟨some (-6), some 13, true⟩

/-- The layout of numbers in messages: never an exponent. -/
def plain : Layout := ⟨none, none, false⟩

/-- The layout of numbers in messages about documents: a point, never an exponent. -/
def pointedPlain : Layout := ⟨none, none, true⟩

/-- Whether a number whose first digit stands just below `10 ^ k` has its point in place. -/
def isPositional (l : Layout) (k : Int) : Bool :=
  l.smallest.all (· < k) && l.largest.all (k ≤ ·)

end Layout

/-- The decimal digits of a natural number. -/
def digitsOf (n : Nat) : List Char := Nat.toDigits 10 n

/-- A row of zeros. -/
def zeros (n : Nat) : List Char := List.replicate n '0'

namespace Decimal

/-- The number with its point in place. -/
def positional (d : Decimal) (pointed : Bool) : List Char :=
  let ds := digitsOf d.digits
  let k : Int := ds.length + d.scale
  if 0 ≤ d.scale then ds ++ zeros d.scale.toNat ++ (if pointed then ['.', '0'] else [])
  else if 0 < k then ds.take k.toNat ++ '.' :: ds.drop k.toNat
  else '0' :: '.' :: zeros (-k).toNat ++ ds

/-- The number with its point after the first digit, and an exponent with its sign. -/
def scientific (d : Decimal) : List Char :=
  let ds := digitsOf d.digits
  let e : Int := ds.length + d.scale - 1
  let fraction := ds.drop 1
  ds.take 1 ++ (if fraction.isEmpty then [] else '.' :: fraction)
    ++ 'e' :: (if e < 0 then '-' else '+') :: digitsOf e.natAbs

/-- The number in a layout. -/
def text (d : Decimal) (l : Layout) : List Char :=
  if l.isPositional ((digitsOf d.digits).length + d.scale) then d.positional l.pointed
  else d.scientific

end Decimal

namespace Binary

/-- A finite number in a layout. -/
def finiteText (f : Format) (l : Layout) (negative : Bool) (m : Nat) (e : Int) : String :=
  let magnitude :=
    if m = 0 then '0' :: (if l.pointed then ['.', '0'] else []) else (f.shortest m e).text l
  String.ofList (if negative then '-' :: magnitude else magnitude)

/-- A number in a layout, with the words for infinity and for no number. -/
def text (f : Format) (l : Layout) (infinity nan : String) : Binary → String
  | .finite negative m e => finiteText f l negative m e
  | .infinite negative => (if negative then "-" else "") ++ infinity
  | .nan => nan

/-- A number in a layout of JSON, which writes only finite numbers. -/
def finiteOrNull (f : Format) (l : Layout) : Binary → String
  | .finite negative m e => finiteText f l negative m e
  | _ => "null"

/-- The text of a number of 64 bits in JSON. -/
def jsonText (x : Binary) : String := x.finiteOrNull .double .double

/-- The text of a number of 32 bits in JSON. -/
def jsonTextSingle (x : Binary) : String := x.finiteOrNull .single .single

end Binary

end InferenceGateway.Numeral
