import InferenceGateway.Numeral.Literal
import Mathlib.Algebra.Order.Field.Basic
import Mathlib.Algebra.Order.Field.Power
import Mathlib.Data.Rat.Cast.Order
import Mathlib.Tactic.FieldSimp
import Mathlib.Tactic.Linarith
import Mathlib.Tactic.NormNum
import Mathlib.Tactic.Ring

/-!
# Rounding

What comes of rounding a quotient to a format. The exponent is chosen so that a mantissa of full
precision is left (`Format.exponentOf_bounds`); so a number that the format can hold is not changed
(`Format.round_exact`), and only a number beyond the greatest of the format becomes infinite
(`Format.round_finite`).

Two facts about the numbers of documents follow. A number of 32 bits has the same value in 64 bits
(`Binary.convert_double`), and a JSON text writes no infinite number
(`Literal.isFiniteIn_of_jsonNumber`).
-/

namespace InferenceGateway.Numeral

/-! ## Quotients -/

section Quotients

variable {num den n d k : Nat} {e : Int}

/-- Dividing by a power of two divides the quotient. -/
theorem divTwoPow_eq (hd : 0 < den) : 0 < (divTwoPow num den e).2 ∧
    ((divTwoPow num den e).1 : ℚ) / (divTwoPow num den e).2 = num / den / 2 ^ e := by
  have hd' : (den : ℚ) ≠ 0 := by exact_mod_cast hd.ne'
  rw [divTwoPow]
  split
  · obtain ⟨k, rfl⟩ : ∃ k : Nat, e = k := ⟨e.toNat, by omega⟩
    refine ⟨Nat.mul_pos hd (Nat.pow_pos two_pos), ?_⟩
    simp [div_div]
  · obtain ⟨k, rfl⟩ : ∃ k : Nat, e = -k := ⟨(-e).toNat, by omega⟩
    refine ⟨hd, ?_⟩
    simp [div_eq_mul_inv, mul_right_comm]

/-- A whole quotient is its own rounding. -/
theorem halfEven_mul (hd : 0 < d) : halfEven (k * d) d = k := by
  simp [halfEven, Nat.mul_div_cancel _ hd, hd]

/-- Rounding does not pass a whole number from below. -/
theorem halfEven_le (hd : 0 < d) (h : n ≤ k * d) : halfEven n d ≤ k := by
  rcases Nat.lt_or_eq_of_le (Nat.div_le_of_le_mul (Nat.mul_comm k d ▸ h)) with hq | hq
  · -- Below the whole number there is room for rounding up.
    rw [halfEven]
    split
    · exact hq.le
    · split <;> omega
  · have whole : n = k * d := Nat.le_antisymm h (hq ▸ Nat.div_mul_le_self n d)
    rw [whole, halfEven_mul hd]

/-- Nor does it pass one from above. -/
theorem le_halfEven (hd : 0 < d) (h : k * d ≤ n) : k ≤ halfEven n d := by
  have below : k ≤ n / d := (Nat.le_div_iff_mul_le hd).2 h
  rw [halfEven]
  split
  · exact below
  · split <;> omega

end Quotients

namespace Format

variable {f : Format} {num den m : Nat} {e : Int} {negative : Bool}

/-- A mantissa and an exponent that a format can hold. -/
structure Fits (f : Format) (m : Nat) (e : Int) : Prop where
  mantissa : m < 2 ^ f.precision
  least : f.least ≤ e
  greatest : e ≤ f.greatest

/-- The quotient of two numbers, by the numbers of their digits. -/
theorem quotient_log2 (hn : 0 < num) (hd : 0 < den) :
    (2 : ℚ) ^ ((num.log2 : Int) - den.log2 - 1) < num / den ∧
      (num / den : ℚ) < 2 ^ ((num.log2 : Int) - den.log2 + 1) := by
  have hd' : (0 : ℚ) < den := by exact_mod_cast hd
  have num_ge : (2 : ℚ) ^ (num.log2 : Int) ≤ num := by
    exact_mod_cast Nat.log2_self_le hn.ne'
  have num_lt : (num : ℚ) < 2 ^ ((num.log2 : Int) + 1) := by
    exact_mod_cast Nat.lt_log2_self (n := num)
  have den_ge : (2 : ℚ) ^ (den.log2 : Int) ≤ den := by
    exact_mod_cast Nat.log2_self_le hd.ne'
  have den_lt : (den : ℚ) < 2 ^ ((den.log2 : Int) + 1) := by
    exact_mod_cast Nat.lt_log2_self (n := den)
  constructor
  · rw [lt_div_iff₀ hd']
    calc (2 : ℚ) ^ ((num.log2 : Int) - den.log2 - 1) * den
        < 2 ^ ((num.log2 : Int) - den.log2 - 1) * 2 ^ ((den.log2 : Int) + 1) :=
          mul_lt_mul_of_pos_left den_lt (zpow_pos two_pos _)
      _ = 2 ^ (num.log2 : Int) := by
          rw [← zpow_add₀ two_ne_zero]
          congr 1
          omega
      _ ≤ num := num_ge
  · rw [div_lt_iff₀ hd']
    calc (num : ℚ) < 2 ^ ((num.log2 : Int) + 1) := num_lt
      _ = 2 ^ ((num.log2 : Int) - den.log2 + 1) * 2 ^ (den.log2 : Int) := by
          rw [← zpow_add₀ two_ne_zero]
          congr 1
          omega
      _ ≤ 2 ^ ((num.log2 : Int) - den.log2 + 1) * den :=
          mul_le_mul_of_nonneg_left den_ge (zpow_pos two_pos _).le

/-- The exponent of a rounding leaves a mantissa of at most full precision, and of full precision
    unless it is the least exponent. -/
theorem exponentOf_bounds (hn : 0 < num) (hd : 0 < den) :
    f.least ≤ f.exponentOf num den ∧
      (num / den : ℚ) < 2 ^ ((f.precision : Int) + f.exponentOf num den) ∧
      (f.exponentOf num den = f.least ∨
        (2 : ℚ) ^ ((f.precision : Int) - 1 + f.exponentOf num den) ≤ num / den) := by
  obtain ⟨lower, upper⟩ := quotient_log2 hn hd
  set e : Int := (num.log2 : Int) - den.log2 - f.precision with he
  obtain ⟨hpos, quotient⟩ := @divTwoPow_eq num den e hd
  have fits : (divTwoPow num den e).1 < (divTwoPow num den e).2 * Nat.pow 2 f.precision ↔
      (num / den : ℚ) < 2 ^ ((f.precision : Int) + e) := by
    have hpos' : (0 : ℚ) < (divTwoPow num den e).2 := by exact_mod_cast hpos
    rw [zpow_add₀ two_ne_zero, ← div_lt_iff₀ (zpow_pos two_pos e), ← quotient, div_lt_iff₀ hpos',
      mul_comm]
    exact_mod_cast Iff.rfl
  have exponent : f.exponentOf num den =
      max f.least (if (num / den : ℚ) < 2 ^ ((f.precision : Int) + e) then e else e + 1) := by
    rw [exponentOf]
    simp only [← he, fits]
  rw [exponent]
  -- Before it is raised to the least exponent, the exponent leaves exactly full precision.
  obtain ⟨chosen, hc, full, reached⟩ : ∃ chosen : Int,
      (if (num / den : ℚ) < 2 ^ ((f.precision : Int) + e) then e else e + 1) = chosen ∧
      (num / den : ℚ) < 2 ^ ((f.precision : Int) + chosen) ∧
      (2 : ℚ) ^ ((f.precision : Int) - 1 + chosen) ≤ num / den := by
    by_cases h : (num / den : ℚ) < 2 ^ ((f.precision : Int) + e)
    · exact ⟨e, if_pos h, h, le_trans (le_of_eq (by congr 1; omega)) lower.le⟩
    · refine ⟨e + 1, if_neg h, lt_of_lt_of_eq upper (by congr 1; omega), ?_⟩
      exact le_trans (le_of_eq (by congr 1; omega)) (not_lt.1 h)
  rw [hc]
  rcases le_total f.least chosen with h | h
  · rw [max_eq_right h]
    exact ⟨h, full, .inr reached⟩
  · rw [max_eq_left h]
    exact ⟨le_rfl, full.trans_le (zpow_le_zpow_right₀ one_le_two (by omega)), .inl rfl⟩

/-- The mantissa of a quotient at an exponent. -/
def mantissaAt (num den : Nat) (e : Int) : Nat :=
  halfEven (divTwoPow num den e).1 (divTwoPow num den e).2

theorem mantissaAt_le {k : Nat} (hd : 0 < den) (h : (num / den : ℚ) ≤ k * 2 ^ e) :
    mantissaAt num den e ≤ k := by
  obtain ⟨hpos, quotient⟩ := @divTwoPow_eq num den e hd
  refine halfEven_le hpos ?_
  have hpos' : (0 : ℚ) < (divTwoPow num den e).2 := by exact_mod_cast hpos
  rw [← div_le_iff₀ (zpow_pos two_pos e), ← quotient, div_le_iff₀ hpos'] at h
  exact_mod_cast h

theorem le_mantissaAt {k : Nat} (hd : 0 < den) (h : (k * 2 ^ e : ℚ) ≤ num / den) :
    k ≤ mantissaAt num den e := by
  obtain ⟨hpos, quotient⟩ := @divTwoPow_eq num den e hd
  refine le_halfEven hpos ?_
  have hpos' : (0 : ℚ) < (divTwoPow num den e).2 := by exact_mod_cast hpos
  rw [← le_div_iff₀ (zpow_pos two_pos e), ← quotient, le_div_iff₀ hpos'] at h
  exact_mod_cast h

theorem mantissaAt_eq {k : Nat} (hd : 0 < den) (h : (num / den : ℚ) = k * 2 ^ e) :
    mantissaAt num den e = k := by
  obtain ⟨hpos, quotient⟩ := @divTwoPow_eq num den e hd
  have hpos' : (0 : ℚ) < (divTwoPow num den e).2 := by exact_mod_cast hpos
  rw [← div_eq_iff (zpow_pos two_pos e).ne', ← quotient, div_eq_iff hpos'.ne'] at h
  have whole : (divTwoPow num den e).1 = k * (divTwoPow num den e).2 := by exact_mod_cast h
  rw [mantissaAt, whole, halfEven_mul hpos]

theorem round_zero : f.round negative 0 den = .finite negative 0 f.least := if_pos rfl

/-- A rounding keeps the chosen exponent, unless the mantissa has become one digit longer. -/
theorem round_eq (hn : 0 < num) : f.round negative num den =
    if mantissaAt num den (f.exponentOf num den) = 2 ^ f.precision then
      if f.greatest < f.exponentOf num den + 1 then .infinite negative
      else .finite negative (2 ^ f.precision / 2) (f.exponentOf num den + 1)
    else if f.greatest < f.exponentOf num den then .infinite negative
      else .finite negative (mantissaAt num den (f.exponentOf num den)) (f.exponentOf num den) := by
  by_cases h : mantissaAt num den (f.exponentOf num den) = 2 ^ f.precision
  · have carry : halfEven (divTwoPow num den (f.exponentOf num den)).1
        (divTwoPow num den (f.exponentOf num den)).2 = Nat.pow 2 f.precision := h
    rw [if_pos h, round, if_neg hn.ne']
    simp only [carry, if_true]
    rfl
  · have short : ¬halfEven (divTwoPow num den (f.exponentOf num den)).1
        (divTwoPow num den (f.exponentOf num den)).2 = Nat.pow 2 f.precision := h
    rw [if_neg h, round, if_neg hn.ne']
    simp only [short, if_false]
    rfl

/-- A rounding is finite or infinite. -/
theorem round_cases : (∃ m e, f.round negative num den = .finite negative m e) ∨
    f.round negative num den = .infinite negative := by
  rcases Nat.eq_zero_or_pos num with rfl | hn
  · exact .inl ⟨_, _, round_zero⟩
  rw [round_eq hn]
  split <;> split
  · exact .inr rfl
  · exact .inl ⟨_, _, rfl⟩
  · exact .inr rfl
  · exact .inl ⟨_, _, rfl⟩

/-- A carry does not change the value. -/
theorem value_of_round (hp : 0 < f.precision) (hn : 0 < num)
    {negative' : Bool} (h : f.round negative num den = .finite negative' m e) :
    (m * 2 ^ e : ℚ) =
      mantissaAt num den (f.exponentOf num den) * 2 ^ f.exponentOf num den := by
  rw [round_eq hn] at h
  split at h
  · rename_i carry
    split at h <;> cases h
    obtain ⟨p, hp⟩ : ∃ p, f.precision = p + 1 := ⟨f.precision - 1, by omega⟩
    rw [carry, hp, pow_succ, Nat.mul_div_cancel _ two_pos, zpow_add₀ two_ne_zero]
    push_cast
    ring
  · split at h <;> cases h
    rfl

theorem mantissaAt_exponentOf_le (hn : 0 < num) (hd : 0 < den) :
    mantissaAt num den (f.exponentOf num den) ≤ 2 ^ f.precision := by
  refine mantissaAt_le hd ?_
  have := (exponentOf_bounds (f := f) hn hd).2.1.le
  rw [zpow_add₀ two_ne_zero, zpow_natCast] at this
  exact_mod_cast this

/-- A finite rounding can be held. -/
theorem fits_of_round (hr : f.least ≤ f.greatest) (hd : 0 < den)
    {negative' : Bool} (h : f.round negative num den = .finite negative' m e) : f.Fits m e := by
  rcases Nat.eq_zero_or_pos num with rfl | hn
  · rw [round_zero] at h
    cases h
    exact ⟨Nat.two_pow_pos _, le_rfl, hr⟩
  have least := (exponentOf_bounds (f := f) hn hd).1
  have bound := mantissaAt_exponentOf_le (f := f) hn hd
  rw [round_eq hn] at h
  split at h
  · split at h <;> cases h
    exact ⟨Nat.div_lt_self (Nat.two_pow_pos _) one_lt_two, by omega, by omega⟩
  · split at h <;> cases h
    exact ⟨by omega, least, by omega⟩

/-- A rounding that is not beyond the greatest number of the format is finite. -/
theorem round_finite (hr : f.least ≤ f.greatest) (hd : 0 < den)
    (h : (num / den : ℚ) ≤ (2 ^ f.precision - 1 : Nat) * 2 ^ f.greatest) :
    ∃ m e, f.round negative num den = .finite negative m e := by
  rcases Nat.eq_zero_or_pos num with rfl | hn
  · exact ⟨_, _, round_zero⟩
  have positive : 1 ≤ 2 ^ f.precision := Nat.one_le_two_pow
  obtain ⟨-, -, reached⟩ := exponentOf_bounds (f := f) hn hd
  have small : f.exponentOf num den ≤ f.greatest := by
    rcases reached with he | reached
    · exact he.trans_le hr
    by_contra hlt
    have above : (2 : ℚ) ^ ((f.precision : Int) + f.greatest) ≤ num / den :=
      (zpow_le_zpow_right₀ one_le_two (by omega)).trans reached
    have below : ((2 ^ f.precision - 1 : Nat) : ℚ) * 2 ^ f.greatest <
        2 ^ ((f.precision : Int) + f.greatest) := by
      rw [zpow_add₀ two_ne_zero, zpow_natCast]
      refine mul_lt_mul_of_pos_right ?_ (zpow_pos two_pos _)
      exact_mod_cast Nat.sub_lt positive one_pos
    exact absurd (above.trans h) (not_le.2 below)
  rw [round_eq hn]
  split
  · rename_i carry
    refine ⟨_, _, if_neg fun hlt => ?_⟩
    -- A carry at the greatest exponent would need more than the greatest number.
    have he : f.exponentOf num den = f.greatest := by omega
    rw [he] at carry
    have := mantissaAt_le hd h
    omega
  · exact ⟨_, _, if_neg (by omega)⟩

/-- A rounding does not pass a power of two from above. -/
theorem le_round (hp : 0 < f.precision) (hd : 0 < den) {j : Int} (hj : f.least ≤ j)
    (h : (2 ^ j : ℚ) ≤ num / den) {negative' : Bool}
    (hf : f.round negative num den = .finite negative' m e) : (2 ^ j : ℚ) ≤ m * 2 ^ e := by
  have hn : 0 < num := by
    refine Nat.pos_of_ne_zero fun hz => absurd h (not_le.2 ?_)
    rw [hz, Nat.cast_zero, zero_div]
    exact zpow_pos two_pos j
  rw [value_of_round hp hn hf]
  obtain ⟨-, -, reached⟩ := exponentOf_bounds (f := f) hn hd
  generalize f.exponentOf num den = e at reached
  rcases le_or_gt e j with he | he
  · obtain ⟨shift, rfl⟩ : ∃ shift : Nat, j = e + shift := ⟨(j - e).toNat, by omega⟩
    rw [zpow_add₀ two_ne_zero, mul_comm, zpow_natCast] at h ⊢
    refine mul_le_mul_of_nonneg_right ?_ (zpow_pos two_pos e).le
    exact_mod_cast le_mantissaAt hd (k := 2 ^ shift) (by exact_mod_cast h)
  · have one : (1 : ℚ) ≤ mantissaAt num den e := by
      refine Nat.one_le_cast.2 (le_mantissaAt hd ?_)
      rcases reached with rfl | reached
      · exact absurd hj (by omega)
      rw [Nat.cast_one, one_mul]
      exact (zpow_le_zpow_right₀ one_le_two (by omega)).trans reached
    calc (2 ^ j : ℚ) ≤ 2 ^ e := zpow_le_zpow_right₀ one_le_two he.le
      _ ≤ mantissaAt num den e * 2 ^ e := le_mul_of_one_le_left (zpow_pos two_pos e).le one

/-- A number that the format can hold is not changed. -/
theorem round_exact {k : Nat} {j : Int} (hf : f.Fits k j) (hd : 0 < den)
    (h : (num / den : ℚ) = k * 2 ^ j) :
    ∃ m e, f.round negative num den = .finite negative m e ∧ (m * 2 ^ e : ℚ) = k * 2 ^ j := by
  rcases Nat.eq_zero_or_pos num with rfl | hn
  · exact ⟨_, _, round_zero, by rw [← h]; simp⟩
  obtain ⟨-, full, reached⟩ := exponentOf_bounds (f := f) hn hd
  generalize he : f.exponentOf num den = e at full reached
  have le : e ≤ j := by
    rcases reached with rfl | reached
    · exact hf.least
    have below : (2 : ℚ) ^ ((f.precision : Int) - 1 + e) < 2 ^ ((f.precision : Int) + j) := by
      refine reached.trans_lt (h.trans_lt ?_)
      rw [zpow_add₀ two_ne_zero, zpow_natCast]
      refine mul_lt_mul_of_pos_right ?_ (zpow_pos two_pos _)
      exact_mod_cast hf.mantissa
    have := (zpow_lt_zpow_iff_right₀ one_lt_two).1 below
    omega
  obtain ⟨shift, rfl⟩ : ∃ shift : Nat, j = e + shift := ⟨(j - e).toNat, by omega⟩
  have value : ((k * 2 ^ shift : Nat) : ℚ) * 2 ^ e = k * 2 ^ (e + shift) := by
    rw [zpow_add₀ two_ne_zero, zpow_natCast]
    push_cast
    ring
  have mantissa : mantissaAt num den e = k * 2 ^ shift := mantissaAt_eq hd (h.trans value.symm)
  have short : k * 2 ^ shift ≠ 2 ^ f.precision := by
    intro hk
    rw [h, ← value, hk, zpow_add₀ two_ne_zero, zpow_natCast] at full
    push_cast at full
    exact lt_irrefl _ full
  refine ⟨k * 2 ^ shift, e, ?_, by rw [← value]⟩
  rw [round_eq hn, he, mantissa, if_neg short, if_neg (by have := hf.greatest; omega)]

end Format

/-! ## Numbers -/

namespace Binary

variable {f : Format} {x y : Binary}

/-- The value of a number. Infinities and what is no number have none. -/
def value? : Binary → Option ℚ
  | finite negative m e => some ((if negative then -1 else 1) * (m * 2 ^ e))
  | _ => none

/-- A number that a format can hold, if it is finite. -/
def FitsIn (x : Binary) (f : Format) : Prop :=
  ∀ negative m e, x = finite negative m e → f.Fits m e

/-- A finite number of a format. -/
def IsFiniteIn (x : Binary) (f : Format) : Prop :=
  ∃ negative m e, x = finite negative m e ∧ f.Fits m e

/-- The two parts of a magnitude are a quotient that is the magnitude. -/
theorem magnitude_eq (m : Nat) (e : Int) :
    0 < (magnitude m e).2 ∧ ((magnitude m e).1 : ℚ) / (magnitude m e).2 = m * 2 ^ e := by
  obtain ⟨hpos, quotient⟩ := @divTwoPow_eq m 1 (-e) one_pos
  refine ⟨hpos, quotient.trans ?_⟩
  rw [Nat.cast_one, div_one, zpow_neg, div_inv_eq_mul]

theorem IsFiniteIn.neg (h : x.IsFiniteIn f) : x.neg.IsFiniteIn f := by
  obtain ⟨negative, m, e, rfl, hf⟩ := h
  exact ⟨_, m, e, rfl, hf⟩

theorem fitsIn_round {negative : Bool} {num den : Nat} (hr : f.least ≤ f.greatest) (hd : 0 < den) :
    (f.round negative num den).FitsIn f := fun _ _ _ h => Format.fits_of_round hr hd h

theorem isFiniteIn_round {negative : Bool} {num den : Nat} (hr : f.least ≤ f.greatest)
    (hd : 0 < den) (h : (num / den : ℚ) ≤ (2 ^ f.precision - 1 : Nat) * 2 ^ f.greatest) :
    (f.round negative num den).IsFiniteIn f := by
  obtain ⟨m, e, h⟩ : ∃ m e, f.round negative num den = .finite negative m e :=
    Format.round_finite hr hd h
  exact ⟨_, m, e, h, Format.fits_of_round hr hd h⟩

/-- A rounding that is not infinite is finite. -/
theorem isFiniteIn_round_of_ne {negative : Bool} {num den : Nat} (hr : f.least ≤ f.greatest)
    (hd : 0 < den) (h : f.round negative num den ≠ .infinite negative) :
    (f.round negative num den).IsFiniteIn f := by
  obtain ⟨m, e, hx⟩ := Format.round_cases.resolve_right h
  exact ⟨negative, m, e, hx, Format.fits_of_round hr hd hx⟩

/-- A number of 32 bits has the same sign and the same value in 64 bits. -/
theorem convert_double {negative : Bool} {m : Nat} {e : Int}
    (h : (finite negative m e).FitsIn .single) : ∃ m' e',
      (finite negative m e).convert .double = finite negative m' e' ∧
        (m' * 2 ^ e' : ℚ) = m * 2 ^ e := by
  obtain ⟨hm, hl, hg⟩ := h _ _ _ rfl
  have fits : Format.double.Fits m e :=
    ⟨hm.trans (by decide), hl.trans' (by decide), hg.trans (by decide)⟩
  obtain ⟨hd, quotient⟩ := magnitude_eq m e
  exact Format.round_exact fits hd quotient

end Binary

/-! ## Numbers of texts -/

namespace Literal

open Binary

/-- A finite number of at least one. -/
def IsLarge (x : Binary) : Prop := ∃ negative m e, x = finite negative m e ∧ (1 : ℚ) ≤ m * 2 ^ e

/-- The powers of ten of the table are finite, and not less than one. -/
theorem isLarge_powerOfTen {n : Nat} (h : n ≤ 308) :
    (powerOfTen n).IsFiniteIn .double ∧ IsLarge (powerOfTen n) := by
  have power : ((Nat.pow 10 n : Nat) / (1 : Nat) : ℚ) = 10 ^ n := by simp
  have bounded : (powerOfTen n).IsFiniteIn .double := by
    refine isFiniteIn_round (by decide) one_pos (power.trans_le ?_)
    calc (10 : ℚ) ^ n ≤ 10 ^ 308 := pow_le_pow_right₀ (by norm_num) h
      _ ≤ (2 ^ 53 - 1 : Nat) * 2 ^ (971 : Int) := by
        exact_mod_cast (by decide +kernel : 10 ^ 308 ≤ (2 ^ 53 - 1) * 2 ^ 971)
  obtain ⟨negative, m, e, hx, hf⟩ := bounded
  refine ⟨⟨negative, m, e, hx, hf⟩, negative, m, e, hx, ?_⟩
  have one : (2 ^ (0 : Int) : ℚ) ≤ (Nat.pow 10 n : Nat) / (1 : Nat) := by
    rw [power, zpow_zero]
    exact one_le_pow₀ (by norm_num)
  have := Format.le_round (by decide) one_pos (by decide) one hx
  rwa [zpow_zero] at this

/-- A number divided by one that is not less than one stays finite. -/
theorem isFiniteIn_div {x y : Binary} (hx : x.IsFiniteIn .double) (hy : IsLarge y) :
    (div x y).IsFiniteIn .double := by
  obtain ⟨negative, m, e, rfl, hm, -, hg⟩ := hx
  obtain ⟨negative', m', e', rfl, hone⟩ := hy
  obtain ⟨hd, quotient⟩ := magnitude_eq m (e - e')
  have hm' : 0 < m' := by
    refine Nat.pos_of_ne_zero fun hz => absurd hone ?_
    simp [hz]
  refine isFiniteIn_round (by decide) (Nat.mul_pos hd hm') ?_
  have hm'' : (0 : ℚ) < m' := by exact_mod_cast hm'
  have value : (((magnitude m (e - e')).1 : ℚ) / ((magnitude m (e - e')).2 * m' : Nat)) =
      m * 2 ^ e / (m' * 2 ^ e') := by
    rw [Nat.cast_mul, ← div_div, quotient, zpow_sub₀ two_ne_zero]
    field_simp
  have nonneg : (0 : ℚ) ≤ m * 2 ^ e := mul_nonneg (Nat.cast_nonneg m) (zpow_pos two_pos e).le
  calc _ = _ := value
    _ ≤ m * 2 ^ e := div_le_self nonneg hone
    _ ≤ (2 ^ Format.double.precision - 1 : Nat) * 2 ^ Format.double.greatest := by
        refine mul_le_mul ?_ (zpow_le_zpow_right₀ one_le_two hg) (zpow_pos two_pos e).le
          (Nat.cast_nonneg _)
        exact_mod_cast Nat.le_sub_one_of_lt hm

/-- A product that is not too large is finite. -/
theorem isFiniteIn_mul {x y : Binary} (hx : x.IsFiniteIn .double) (hy : y.IsFiniteIn .double)
    (h : ∀ negative, mul x y ≠ .infinite negative) : (mul x y).IsFiniteIn .double := by
  obtain ⟨_, m, e, rfl, -⟩ := hx
  obtain ⟨_, m', e', rfl, -⟩ := hy
  exact isFiniteIn_round_of_ne (by decide) (magnitude_eq (m * m') (e + e')).1 (h false)

/-- A number times a power of ten is finite, if it has a value. -/
theorem isFiniteIn_scale {x y : Binary} {e : Int} (hx : x.IsFiniteIn .double)
    (h : scale x e = some y) : y.IsFiniteIn .double := by
  fun_induction scale x e with
  | case1 | case6 => exact Option.some.inj h ▸ hx
  | case2 | case3 => cases h
  | case4 x e _ _ he hm =>
    have small : e.toNat ≤ 308 := by simp only [tableSize] at he; omega
    exact Option.some.inj h ▸ isFiniteIn_mul hx (isLarge_powerOfTen small).1 hm
  | case5 x e _ he =>
    have small : (-e).toNat ≤ 308 := by simp only [tableSize] at he; omega
    exact Option.some.inj h ▸ isFiniteIn_div hx (isLarge_powerOfTen small).2
  | case7 x e _ _ _ ih => exact ih (isFiniteIn_div hx (isLarge_powerOfTen (by decide)).2) h

/-- The digits that are taken fit in 64 bits. -/
theorem value_takeWhole {s : Significand} (h : s.value < wordLimit) (ds : List Nat) :
    (s.takeWhole ds).value < wordLimit := by
  induction ds generalizing s with
  | nil => exact h
  | cons d ds ih =>
    rw [Significand.takeWhole]
    split
    · rename_i hd
      exact ih (by simpa using (Bool.and_eq_true_iff.1 hd).2)
    · exact ih h

theorem value_takeFraction {s : Significand} (h : s.value < wordLimit) (ds : List Nat) :
    (s.takeFraction ds).value < wordLimit := by
  induction ds generalizing s with
  | nil => exact h
  | cons d ds ih =>
    rw [Significand.takeFraction]
    split
    · rename_i hd
      exact ih hd
    · exact h

/-- A JSON text writes no infinite number. -/
theorem isFiniteIn_of_scaled {l : Literal} {x : Binary} (h : l.scaled = some x) :
    x.IsFiniteIn .double := by
  have fits : l.significand.value < wordLimit :=
    value_takeFraction (value_takeWhole (by decide) _) _
  have start : (Format.double.round false l.significand.value 1).IsFiniteIn .double := by
    refine isFiniteIn_round (by decide) one_pos ?_
    have small : l.significand.value ≤ (2 ^ 53 - 1) * 2 ^ 12 := fits.le.trans (by decide)
    calc (l.significand.value / (1 : Nat) : ℚ) ≤ (2 ^ 53 - 1 : Nat) * 2 ^ (12 : Int) := by
          rw [Nat.cast_one, div_one]
          exact_mod_cast small
      _ ≤ (2 ^ Format.double.precision - 1 : Nat) * 2 ^ Format.double.greatest :=
          mul_le_mul_of_nonneg_left (zpow_le_zpow_right₀ one_le_two (by decide)) (Nat.cast_nonneg _)
  have zero : (finite false 0 Format.double.least).IsFiniteIn .double :=
    ⟨_, _, _, rfl, by decide, by decide, by decide⟩
  obtain ⟨y, hy, rfl⟩ := Option.map_eq_some_iff.1 h
  have bounded : y.IsFiniteIn .double := by
    split at hy
    · exact isFiniteIn_scale start hy
    · dsimp only at hy
      split at hy
      · split at hy
        · cases hy
        · exact Option.some.inj hy ▸ zero
      · exact isFiniteIn_scale start hy
  split
  · exact bounded.neg
  · exact bounded

/-- A number of a JSON text is an integer or finite. -/
theorem isFiniteIn_of_jsonNumber {l : Literal} {x : Binary}
    (h : l.jsonNumber = some (.real x)) : x.IsFiniteIn .double := by
  rw [jsonNumber] at h
  split at h
  · cases h
  · obtain ⟨y, hy, he⟩ := Option.map_eq_some_iff.1 h
    cases he
    exact isFiniteIn_of_scaled hy

end Literal

end InferenceGateway.Numeral
