import InferenceGateway.Numeral.Binary

/-!
# Decimal literals

What a written number means. A literal without a fraction and an exponent is an integer
as long as it fits in 64 bits, and a number of 64 bits otherwise. There are two readings
of the latter. `Literal.nearest` rounds the written number once. `Literal.scaled` is the
reading of JSON texts: the first digits that fit in 64 bits are rounded, and then
multiplied or divided by a rounded power of ten, so a long literal may come out a unit
off, and a literal beyond the largest number has no value at all.
-/

namespace InferenceGateway.Numeral

/-- A number of a document. -/
inductive Number where
  | integer (value : Int)
  | real (value : Binary)
deriving DecidableEq, Repr, Inhabited

/-- A written decimal number. -/
structure Literal where
  negative : Bool
  /-- The digits before the point. -/
  whole : List Nat
  /-- The digits after the point, if there is one. -/
  fraction : Option (List Nat)
  /-- The sign and the digits of the exponent, if there is one. -/
  exponent : Option (Bool × List Nat)
deriving Repr

/-- The value of a row of decimal digits. -/
def valueOf (digits : List Nat) : Nat := digits.foldl (fun n d => 10 * n + d) 0

/-- The first integer that does not fit in 64 bits without a sign. -/
def wordLimit : Nat := Nat.pow 2 64

/-- The greatest exponent that a literal may have to be looked at closely. -/
def exponentLimit : Nat := Nat.pow 2 31

namespace Literal

/-- The integer that a literal without fraction and exponent writes, if it fits in 64 bits.
    A negative zero is no integer. -/
def integer? (l : Literal) : Option Int :=
  let n := valueOf l.whole
  match l.fraction, l.exponent with
  | none, none =>
    if l.negative then (if 0 < n && n ≤ wordLimit / 2 then some (-(n : Int)) else none)
    else if n < wordLimit then some n else none
  | _, _ => none

/-! ## One rounding -/

/-- The number of 64 bits nearest to a literal. -/
def nearest (l : Literal) : Binary :=
  let fraction := l.fraction.getD []
  let n := valueOf (l.whole ++ fraction)
  let e : Int := match l.exponent with
    | none => 0
    | some (negative, ds) => if negative then -(valueOf ds : Int) else valueOf ds
  let scale := e - fraction.length
  let size := (Nat.toDigits 10 n).length + scale
  if n = 0 || size < -400 then .finite l.negative 0 Format.double.least
  else if 400 < size then .infinite l.negative
  else if 0 ≤ scale then Format.double.round l.negative (n * Nat.pow 10 scale.toNat) 1
  else Format.double.round l.negative n (Nat.pow 10 (-scale).toNat)

/-! ## A rounding for each step -/

/-- Leading digits that fit in 64 bits, and the power of ten they are to be taken with. -/
structure Significand where
  value : Nat
  scale : Int

/-- Takes the digits before the point. Once a digit does not fit, it and all that follow
    are dropped, each making the value count ten times. -/
def Significand.takeWhole (s : Significand) : List Nat → Significand
  | [] => s
  | d :: ds =>
    if s.scale = 0 && 10 * s.value + d < wordLimit then takeWhole ⟨10 * s.value + d, 0⟩ ds
    else takeWhole ⟨s.value, s.scale + 1⟩ ds

/-- Takes the digits after the point, up to the first that does not fit. -/
def Significand.takeFraction (s : Significand) : List Nat → Significand
  | [] => s
  | d :: ds =>
    if 10 * s.value + d < wordLimit then takeFraction ⟨10 * s.value + d, s.scale - 1⟩ ds else s

/-- The leading digits of a literal. -/
def significand (l : Literal) : Significand :=
  ((⟨0, 0⟩ : Significand).takeWhole l.whole).takeFraction (l.fraction.getD [])

/-- A power of ten, rounded. -/
def powerOfTen (n : Nat) : Binary := Format.double.round false (Nat.pow 10 n) 1

/-- The rounded product of two numbers that are not negative. -/
def mul : Binary → Binary → Binary
  | .finite _ m e, .finite _ m' e' =>
    let (n, d) := Binary.magnitude (m * m') (e + e')
    Format.double.round false n d
  | x, _ => x

/-- The rounded quotient of two numbers that are not negative. -/
def div : Binary → Binary → Binary
  | .finite _ m e, .finite _ m' e' =>
    let (n, d) := Binary.magnitude m (e - e')
    Format.double.round false n (d * m')
  | x, _ => x

/-- The greatest power of ten that is a number. -/
def tableSize : Int := 308

/-- A number times a power of ten. A power too small to be a number is reached in several
    divisions; a product too large is none. -/
def scale (x : Binary) (e : Int) : Option Binary :=
  if 0 ≤ e then
    if x = .finite false 0 Format.double.least then some x
    else if tableSize < e then none
    else match mul x (powerOfTen e.toNat) with
      | .infinite _ => none
      | y => some y
  else if -tableSize ≤ e then some (div x (powerOfTen (-e).toNat))
  else if x = .finite false 0 Format.double.least then some x
  else scale (div x (powerOfTen tableSize.toNat)) (e + tableSize)
termination_by (-e).toNat
decreasing_by simp only [tableSize] at *; omega

/-- The number of 64 bits that a JSON text means by a literal, if it has one. -/
def scaled (l : Literal) : Option Binary :=
  let s := l.significand
  let start := Format.double.round false s.value 1
  let result := match l.exponent with
    | none => scale start s.scale
    | some (negative, ds) =>
      let e := valueOf ds
      if exponentLimit ≤ e then
        if s.value ≠ 0 && !negative then none else some (.finite false 0 Format.double.least)
      else scale start (if negative then s.scale - e else s.scale + e)
  result.map fun x => if l.negative then x.neg else x

/-- What a JSON text means by a literal: an integer where it can be one. -/
def jsonNumber (l : Literal) : Option Number :=
  match l.integer? with
  | some n => some (.integer n)
  | none => l.scaled.map .real

end Literal

end InferenceGateway.Numeral
