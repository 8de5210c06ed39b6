import InferenceGateway.Numeral.Binary

/-!
# Shortest decimals

The decimal number with the fewest digits that rounds to a given binary number, and of
those the one nearest to it. The search goes from the coarse decimal grids to the fine
ones; on each grid only the two neighbours of the number can be the answer, because a
grid point among the reals that round to the number has a neighbour of it between.
-/

namespace InferenceGateway.Numeral

/-- The decimal number `digits * 10 ^ scale`. -/
structure Decimal where
  digits : Nat
  scale : Int
deriving DecidableEq, Repr

/-- A multiple of a power of two between two multiples: the reals from `low * 2 ^ unit` to
    `high * 2 ^ unit` are those that round to `middle * 2 ^ unit`. -/
structure Span where
  low : Nat
  middle : Nat
  high : Nat
  unit : Int
  /-- Whether the two ends belong to it. -/
  closed : Bool

/-- The reals that round to a positive number of a format. The gap below a power of two
    is half as wide as the gap above. -/
def Format.span (f : Format) (mantissa : Nat) (exponent : Int) : Span :=
  let below := if mantissa = Nat.pow 2 (f.precision - 1) && f.least < exponent then 1 else 2
  ⟨4 * mantissa - below, 4 * mantissa, 4 * mantissa + 2, exponent - 2, mantissa % 2 = 0⟩

namespace Span

/-- The ratio of the unit to `10 ^ scale`. -/
def ratio (s : Span) (scale : Int) : Nat × Nat :=
  let (n, d) := divTwoPow 1 1 (-s.unit)
  if 0 ≤ scale then (n, d * Nat.pow 10 scale.toNat) else (n * Nat.pow 10 (-scale).toNat, d)

/-- The point of the grid of `10 ^ scale` that lies in the span and is nearest to its
    middle; of two equally near points the even one. -/
def onGrid (s : Span) (scale : Int) : Option Nat :=
  let (n, d) := s.ratio scale
  let inside (p : Nat) : Bool :=
    if s.closed then s.low * n ≤ p * d && p * d ≤ s.high * n
    else s.low * n < p * d && p * d < s.high * n
  let below := s.middle * n / d
  match inside below, inside (below + 1) with
  | true, true => some (halfEven (s.middle * n) d)
  | true, false => some below
  | false, true => some (below + 1)
  | false, false => none

/-- The first grid with a point in the span, from `10 ^ scale` down. -/
def search (s : Span) : (steps : Nat) → (scale : Int) → Decimal
  | 0, scale => let (n, d) := s.ratio scale; ⟨s.middle * n / d, scale⟩
  | steps + 1, scale =>
    match s.onGrid scale with
    | some p => ⟨p, scale⟩
    | none => s.search steps (scale - 1)

end Span

/-- A power of ten above `2 ^ n`. -/
def decimalExponentAbove (n : Int) : Int := n * 30103 / 100000 + 2

/-- The shortest decimal of the positive number `mantissa * 2 ^ exponent`. No format of at
    most 64 bits needs more than 17 digits, and the search starts at most three grids
    above the first digit. -/
def Format.shortest (f : Format) (mantissa : Nat) (exponent : Int) : Decimal :=
  (f.span mantissa exponent).search 24 (decimalExponentAbove (mantissa.log2 + 1 + exponent))

end InferenceGateway.Numeral
