/-!
# Binary numbers

Floating-point numbers of a binary format, held exactly: a sign, a mantissa and an
exponent, or an infinity, or no number at all. Every operation is one rounding of an
exact quotient of natural numbers (`Format.round`): to the nearest number of the
format, a tie going to the even mantissa.
-/

namespace InferenceGateway.Numeral

/-- A binary floating-point format. -/
structure Format where
  /-- The number of binary digits of a mantissa. -/
  precision : Nat
  /-- The exponent of the smallest positive number. -/
  least : Int
  /-- The exponent of the largest finite number. -/
  greatest : Int
deriving DecidableEq, Repr

namespace Format

/-- The format of 64 bits. -/
def double : Format := ⟨53, -1074, 971⟩

/-- The format of 32 bits. -/
def single : Format := ⟨24, -149, 104⟩

end Format

/-- A number of a binary format. -/
inductive Binary where
  /-- The number `± mantissa * 2 ^ exponent`; zero has a sign too. -/
  | finite (negative : Bool) (mantissa : Nat) (exponent : Int)
  | infinite (negative : Bool)
  | nan
deriving DecidableEq, Repr, Inhabited

/-- The quotient `num / den`, rounded to the nearest natural number, a tie going to
    the even one. -/
def halfEven (num den : Nat) : Nat :=
  let q := num / den
  let r := num % den
  if 2 * r < den then q else if den < 2 * r then q + 1 else q + q % 2

/-- The quotient `num / den` divided by `2 ^ e`, as a quotient. -/
def divTwoPow (num den : Nat) (e : Int) : Nat × Nat :=
  if 0 ≤ e then (num, den * Nat.pow 2 e.toNat) else (num * Nat.pow 2 (-e).toNat, den)

namespace Format

/-- The exponent at which the positive quotient `num / den` is rounded: the one that
    leaves a mantissa of full precision, or the least of the format. -/
def exponentOf (f : Format) (num den : Nat) : Int :=
  let e := (num.log2 : Int) - den.log2 - f.precision
  let (n, d) := divTwoPow num den e
  max f.least (if n < d * Nat.pow 2 f.precision then e else e + 1)

/-- The number of the format nearest to `± num / den`. -/
def round (f : Format) (negative : Bool) (num den : Nat) : Binary :=
  if num = 0 then .finite negative 0 f.least
  else
    let e := f.exponentOf num den
    let (n, d) := divTwoPow num den e
    let m := halfEven n d
    -- Rounding up may have made the mantissa one digit longer.
    let (m, e) := if m = Nat.pow 2 f.precision then (m / 2, e + 1) else (m, e)
    if f.greatest < e then .infinite negative else .finite negative m e

/-- The number of the format nearest to an integer. -/
def ofInt (f : Format) (n : Int) : Binary := f.round (n < 0) n.natAbs 1

end Format

namespace Binary

/-- The magnitude `mantissa * 2 ^ exponent` as a quotient of natural numbers. -/
def magnitude (mantissa : Nat) (exponent : Int) : Nat × Nat := divTwoPow mantissa 1 (-exponent)

/-- A number of one format, rounded to another. -/
def convert (f : Format) : Binary → Binary
  | finite negative m e => let (n, d) := magnitude m e; f.round negative n d
  | x => x

/-- Whether a number is `0` or more and at most `bound`. -/
def isWithin (bound : Nat) : Binary → Bool
  | finite negative m e =>
    let (n, d) := magnitude m e
    m == 0 || (!negative && n ≤ bound * d)
  | _ => false

/-- The number with the other sign. -/
def neg : Binary → Binary
  | finite negative m e => finite (!negative) m e
  | infinite negative => infinite (!negative)
  | nan => nan

end Binary

end InferenceGateway.Numeral
