import Mathlib.Algebra.Order.Field.Rat
import Mathlib.Algebra.Order.Field.Power
import Mathlib.Tactic.FieldSimp
import Mathlib.Tactic.NormNum
import DeskCalculator.Numeric.Numeral
import DeskCalculator.Numeric.Shortest
import DeskCalculator.Proofs.Numeric.NearestRank

/-!
# DeskCalculator.Proofs.Numeric.DecimalValue

The number that a decimal stands for, and reading decimals as binary numbers.

* **Values are rationals** (`Decimal.value`), and so are the values of ranks (`rankValue`). The
  rank nearest to a decimal is a monotone function of its value, which is all that the search for
  a shortest decimal needs to know about rounding.
* **Shortcuts are sound.** `Binary64.ofDecimal` forms no power of ten for a decimal that is far too
  large or far too small; it is the nearest value in these cases as well (`ofDecimal_eq`).
-/

namespace DeskCalculator.Numeric

/-- The number that a decimal stands for. -/
def Decimal.value (d : Decimal) : ℚ := d.coefficient * 10 ^ d.exponent

/-- The value of a rank as a number. -/
def Binary64.rankValue (rank : Nat) : ℚ := Binary64.units rank / Binary64.unitsPerOne

open Binary64 (rankValue units unitsPerOne)

theorem Binary64.rankValue_nonneg (rank : Nat) : 0 ≤ rankValue rank :=
  div_nonneg (Nat.cast_nonneg _) (Nat.cast_nonneg _)

@[simp] theorem Binary64.rankValue_zero : rankValue 0 = 0 := by
  rw [rankValue, Binary64.units_zero, Nat.cast_zero, zero_div]

theorem Binary64.unitsPerOne_cast_pos : (0 : ℚ) < unitsPerOne :=
  Nat.cast_pos.mpr Binary64.unitsPerOne_pos

/-- Values ascend with their ranks. -/
theorem Binary64.rankValue_strictMono : StrictMono rankValue := fun _ _ h =>
  div_lt_div_of_pos_right (Nat.cast_lt.mpr (units_strictMono h)) unitsPerOne_cast_pos

theorem ten_zpow_pos (e : Int) : (0 : ℚ) < 10 ^ e := zpow_pos (by norm_num) e

/-- A power of ten is a fraction of two powers with natural exponents, one of which is zero. -/
theorem ten_zpow_eq (e : Int) : (10 : ℚ) ^ e = 10 ^ e.toNat / 10 ^ (-e).toNat := by
  rw [← zpow_natCast, ← zpow_natCast, ← zpow_sub₀ (by norm_num)]
  congr 1
  omega

theorem ten_zpow_mono {m n : Int} (h : m ≤ n) : (10 : ℚ) ^ m ≤ 10 ^ n :=
  zpow_le_zpow_right₀ (by norm_num) h

/-! ### Digits of a natural number -/

theorem digitCount_pos (n : Nat) : 0 < digitCount n :=
  List.length_pos_iff.mpr Nat.toDigits_ne_nil

/-- A natural number has at most `k` digits if it is below `10 ^ k`. -/
theorem digitCount_le_iff {n k : Nat} (hk : 0 < k) : digitCount n ≤ k ↔ n < 10 ^ k :=
  Nat.length_toDigits_le_iff (by decide) hk

theorem lt_pow_digitCount (n : Nat) : n < 10 ^ digitCount n :=
  (digitCount_le_iff (digitCount_pos n)).mp le_rfl

theorem pow_digitCount_le {n : Nat} (hn : 0 < n) : 10 ^ (digitCount n - 1) ≤ n := by
  by_contra hlt
  rcases Nat.eq_zero_or_pos (digitCount n - 1) with hone | hpos
  · rw [hone, Nat.pow_zero] at hlt
    omega
  · have hle := (digitCount_le_iff hpos).mpr (Nat.lt_of_not_le hlt)
    have := digitCount_pos n
    omega

namespace Decimal

/-- The value as the fraction that it is read from. -/
theorem value_eq_div (d : Decimal) : d.value = d.numerator / d.denominator := by
  have hpow : ∀ n, Nat.pow 10 n = 10 ^ n := fun _ => rfl
  rw [value, ten_zpow_eq, numerator, denominator, hpow, hpow]
  push_cast
  ring

theorem value_nonneg (d : Decimal) : 0 ≤ d.value :=
  mul_nonneg (Nat.cast_nonneg _) (ten_zpow_pos _).le

theorem value_mono {a b : Nat} (h : a ≤ b) (e : Int) :
    (⟨a, e⟩ : Decimal).value ≤ (⟨b, e⟩ : Decimal).value :=
  mul_le_mul_of_nonneg_right (Nat.cast_le.mpr h) (ten_zpow_pos e).le

/-- A coarser exponent can be made finer. -/
theorem value_shift (c k : Nat) (e : Int) :
    (⟨c * 10 ^ k, e⟩ : Decimal).value = (⟨c, e + k⟩ : Decimal).value := by
  have hten : (10 : ℚ) ≠ 0 := by norm_num
  rw [value, value, zpow_add₀ hten, zpow_natCast]
  push_cast
  ring

/-- Trailing zeros are no part of the value. -/
theorem value_trimmed (c : Nat) (e : Int) : (trimmed c e).value = (⟨c, e⟩ : Decimal).value := by
  fun_induction trimmed c e with
  | case1 c e h ih =>
    have hc : c = c / 10 * 10 ^ 1 := by omega
    rw [ih]
    conv_rhs => rw [hc]
    exact (value_shift (c / 10) 1 e).symm
  | case2 c e h => rfl

/-- The exponent can only grow when trailing zeros are dropped. -/
theorem le_exponent_trimmed (c : Nat) (e : Int) : e ≤ (trimmed c e).exponent := by
  fun_induction trimmed c e with
  | case1 c e h ih => exact (Int.le_add_one le_rfl).trans ih
  | case2 c e h => exact le_rfl

/-- Rounding keeps a decimal that has no more places. -/
theorem value_roundTo {places : Nat} {d : Decimal} (h : -(places : Int) ≤ d.exponent) :
    (⟨d.roundTo places, -(places : Int)⟩ : Decimal).value = d.value := by
  have hexp : -(places : Int) + (d.exponent + places).toNat = d.exponent := by omega
  have hround : d.roundTo places = d.coefficient * 10 ^ (d.exponent + places).toNat := by
    rw [roundTo, if_pos (by omega)]
    rfl
  rw [hround, value_shift, hexp]

/-! ### Reading as a rank -/

/-- Reading is monotone. -/
theorem nearestRank_le_nearestRank {a b : Decimal} (h : a.value ≤ b.value) :
    a.nearestRank ≤ b.nearestRank := by
  rw [value_eq_div, value_eq_div,
    div_le_div_iff₀ (Nat.cast_pos.mpr a.denominator_pos) (Nat.cast_pos.mpr b.denominator_pos)] at h
  have hcross : a.numerator * b.denominator ≤ b.numerator * a.denominator := by exact_mod_cast h
  refine Binary64.nearestRank_mono a.denominator_pos b.denominator_pos ?_
  calc a.numerator * unitsPerOne * b.denominator
    _ = a.numerator * b.denominator * unitsPerOne := by ring
    _ ≤ b.numerator * a.denominator * unitsPerOne := Nat.mul_le_mul_right _ hcross
    _ = b.numerator * unitsPerOne * a.denominator := by ring

theorem nearestRank_congr {a b : Decimal} (h : a.value = b.value) :
    a.nearestRank = b.nearestRank :=
  Nat.le_antisymm (nearestRank_le_nearestRank h.le) (nearestRank_le_nearestRank h.ge)

/-- A value between two multiples of a unit, in natural numbers. -/
theorem value_le_rankValue_iff {d : Decimal} {r : Nat} :
    d.value ≤ rankValue r ↔ d.numerator * unitsPerOne ≤ units r * d.denominator := by
  rw [value_eq_div, rankValue,
    div_le_div_iff₀ (Nat.cast_pos.mpr d.denominator_pos) Binary64.unitsPerOne_cast_pos]
  norm_cast

theorem rankValue_le_value_iff {d : Decimal} {r : Nat} :
    rankValue r ≤ d.value ↔ units r * d.denominator ≤ d.numerator * unitsPerOne := by
  rw [value_eq_div, rankValue,
    div_le_div_iff₀ Binary64.unitsPerOne_cast_pos (Nat.cast_pos.mpr d.denominator_pos)]
  norm_cast

theorem nearestRank_le_of_le {d : Decimal} {r : Nat} (h : d.value ≤ rankValue r) :
    d.nearestRank ≤ r := by
  have hcross := value_le_rankValue_iff.mp h
  refine (Binary64.nearestRank_mono d.denominator_pos Nat.one_pos ?_).trans
    (Binary64.nearestRank_units r Nat.one_pos).le
  simpa using hcross

theorem le_nearestRank_of_le {d : Decimal} {r : Nat} (h : rankValue r ≤ d.value) :
    r ≤ d.nearestRank := by
  have hcross := rankValue_le_value_iff.mp h
  refine (Binary64.nearestRank_units r Nat.one_pos).ge.trans
    (Binary64.nearestRank_mono Nat.one_pos d.denominator_pos ?_)
  simpa using hcross

/-- A decimal that is the value of a rank exactly reads back. -/
theorem nearestRank_of_value_eq {d : Decimal} {r : Nat} (h : d.value = rankValue r) :
    d.nearestRank = r :=
  Nat.le_antisymm (nearestRank_le_of_le h.le) (le_nearestRank_of_le h.ge)

end Decimal

/-! ### Reading as a signed value -/

namespace Binary64

/-- Reading takes no shortcut that can be noticed: a decimal with more than 310 digits before the
point is above every finite value, and one with more than 330 zeros after it is next to zero. -/
theorem ofDecimal_eq (negative : Bool) (d : Decimal) :
    ofDecimal negative d = ofFraction negative (d.numerator * unitsPerOne) d.denominator := by
  have hzero : d.nearestRank = 0 →
      zero negative = ofFraction negative (d.numerator * unitsPerOne) d.denominator :=
    fun h => (ofFraction_eq_finite (by decide) h).symm
  rw [ofDecimal]
  split
  · rename_i hc
    have hvalue : d.value = 0 := by
      rw [Decimal.value, hc, Nat.cast_zero, zero_mul]
    refine hzero (Nat.le_zero.mp (Decimal.nearestRank_le_of_le ?_))
    rw [hvalue]
    exact rankValue_nonneg 0
  · rename_i hc
    have hten : (10 : ℚ) ≠ 0 := by norm_num
    have hpos := digitCount_pos d.coefficient
    split
    · -- at least `10 ^ 310`, which is above the greatest finite value
      rename_i hlead
      have hlarge : rankBound ≤ (⟨1, 310⟩ : Decimal).nearestRank := by decide +kernel
      have hvalue : (⟨1, 310⟩ : Decimal).value ≤ d.value := by
        have hdigits : (10 : ℚ) ^ (digitCount d.coefficient - 1) ≤ d.coefficient := by
          exact_mod_cast pow_digitCount_le (Nat.pos_of_ne_zero hc)
        calc (⟨1, 310⟩ : Decimal).value = 10 ^ (310 : Int) := by simp [Decimal.value]
          _ ≤ 10 ^ (((digitCount d.coefficient - 1 : Nat) : Int) + d.exponent) :=
              ten_zpow_mono (by omega)
          _ = 10 ^ (digitCount d.coefficient - 1) * 10 ^ d.exponent := by
              rw [zpow_add₀ hten, zpow_natCast]
          _ ≤ d.value := mul_le_mul_of_nonneg_right hdigits (ten_zpow_pos _).le
      have hrank := hlarge.trans (Decimal.nearestRank_le_nearestRank hvalue)
      rw [Decimal.nearestRank] at hrank
      rw [ofFraction, dif_neg (Nat.not_lt.mpr hrank)]
    · split
      · -- below `10 ^ (-331)`, which is less than half of the least positive value
        rename_i hlead
        have hsmall : (⟨1, -331⟩ : Decimal).nearestRank = 0 := by decide +kernel
        have hvalue : d.value ≤ (⟨1, -331⟩ : Decimal).value := by
          have hdigits : (d.coefficient : ℚ) ≤ 10 ^ digitCount d.coefficient := by
            exact_mod_cast (lt_pow_digitCount d.coefficient).le
          calc d.value ≤ 10 ^ digitCount d.coefficient * 10 ^ d.exponent :=
                mul_le_mul_of_nonneg_right hdigits (ten_zpow_pos _).le
            _ = 10 ^ ((digitCount d.coefficient : Int) + d.exponent) := by
                rw [zpow_add₀ hten, zpow_natCast]
            _ ≤ 10 ^ (-331 : Int) := ten_zpow_mono (by omega)
            _ = (⟨1, -331⟩ : Decimal).value := by simp [Decimal.value]
        exact hzero (Nat.le_zero.mp (hsmall ▸ Decimal.nearestRank_le_nearestRank hvalue))
      · rfl

/-- The sign of a decimal is kept, and its magnitude is read as a rank. -/
theorem ofDecimal_eq_finite_iff {negative : Bool} {d : Decimal} {x : Finite} :
    ofDecimal negative d = .finite x ↔ x.negative = negative ∧ x.rank = d.nearestRank := by
  constructor
  · intro h
    rw [ofDecimal_eq, ofFraction] at h
    split at h
    · obtain rfl := Binary64.finite.inj h
      exact ⟨rfl, rfl⟩
    · exact absurd h (by simp)
  · rintro ⟨rfl, hrank⟩
    rw [ofDecimal_eq]
    exact ofFraction_eq_finite x.rank_lt hrank.symm

end Binary64

end DeskCalculator.Numeric
