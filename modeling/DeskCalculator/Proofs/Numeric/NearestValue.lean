import Mathlib.Algebra.Order.Group.Abs
import Mathlib.Tactic.Linarith
import DeskCalculator.Proofs.Numeric.DecimalValue

/-!
# DeskCalculator.Proofs.Numeric.NearestValue

Finite values as numbers, and what it means to be the value nearest to a number.

* **Magnitudes.** The rank that a decimal is read as lies between two middles
  (`Decimal.nearestRank_between`), so no other value is closer (`Decimal.abs_rankValue_sub_le`).
* **Signs.** A value of the other sign is no closer than the value of its magnitude.

Main statement: `isNearest_of_ofDecimal`, for every decimal that is read as a finite value.
-/

namespace DeskCalculator.Numeric

open Binary64 (Finite rankValue units unitsPerOne rankValue_strictMono unitsPerOne_cast_pos)

/-- A magnitude with a sign, as a number. -/
def withSign (negative : Bool) (q : ℚ) : ℚ := if negative then -q else q

@[simp] theorem withSign_false (q : ℚ) : withSign false q = q := rfl

@[simp] theorem withSign_true (q : ℚ) : withSign true q = -q := rfl

/-- A common sign does not matter for a distance. -/
theorem abs_withSign_sub (negative : Bool) (p q : ℚ) :
    |withSign negative p - withSign negative q| = |p - q| := by
  cases negative with
  | false => rfl
  | true => rw [withSign_true, withSign_true, neg_sub_neg, abs_sub_comm]

/-- Opposite signs add the magnitudes. -/
theorem abs_withSign_sub_of_ne {negative negative' : Bool} (hne : negative ≠ negative') {p q : ℚ}
    (hp : 0 ≤ p) (hq : 0 ≤ q) : |withSign negative p - withSign negative' q| = p + q := by
  cases negative <;> cases negative'
  · exact absurd rfl hne
  · rw [withSign_false, withSign_true, sub_neg_eq_add, abs_of_nonneg (add_nonneg hp hq)]
  · rw [withSign_true, withSign_false, ← neg_add', abs_neg, abs_of_nonneg (add_nonneg hp hq)]
  · exact absurd rfl hne

namespace Binary64

/-- The number that a finite value is. -/
def Finite.value (x : Finite) : ℚ := x.signedUnits / unitsPerOne

theorem Finite.value_eq (x : Finite) : x.value = withSign x.negative (rankValue x.rank) := by
  rw [value, signedUnits, magnitude, rankValue]
  cases x.negative with
  | false => rfl
  | true =>
    rw [if_pos rfl, withSign_true, Int.cast_neg, Int.cast_natCast, neg_div]

theorem Finite.abs_value (x : Finite) : |x.value| = rankValue x.rank := by
  rw [value_eq]
  cases x.negative with
  | false => exact abs_of_nonneg (rankValue_nonneg _)
  | true => rw [withSign_true, abs_neg, abs_of_nonneg (rankValue_nonneg _)]

/-- A finite value is the one nearest to a number: none is closer, and if another one is as close,
then the last bit is zero. -/
structure IsNearest (q : ℚ) (y : Finite) : Prop where
  closest : ∀ z : Finite, |y.value - q| ≤ |z.value - q|
  even_of_tie : ∀ z : Finite, z.value ≠ y.value → |y.value - q| = |z.value - q| → y.rank % 2 = 0

end Binary64

/-! ### Magnitudes -/

/-- A number before the middle of two others is closer to the first than to anything that is not
before the second. -/
theorem abs_sub_le_of_le_middle {v w s q : ℚ} (hvw : v < w) (hws : w ≤ s) (hmiddle : 2 * q ≤ v + w) :
    |v - q| ≤ |s - q| ∧ (|v - q| = |s - q| → 2 * q = v + w) := by
  have hs : |s - q| = s - q := abs_of_pos (by linarith)
  rw [hs]
  constructor
  · rw [abs_le]
    constructor <;> linarith
  · intro heq
    obtain h | h := abs_cases (v - q) <;> linarith [h.1]

namespace Decimal

/-- Twice a decimal and the sum of two neighbouring values, over one denominator. -/
theorem two_mul_value_eq (d : Decimal) : 2 * d.value =
    ((2 * (d.numerator * unitsPerOne) : Nat) : ℚ) / ((d.denominator * unitsPerOne : Nat) : ℚ) := by
  rw [value_eq_div]
  push_cast
  rw [← mul_assoc, mul_div_mul_right _ _ unitsPerOne_cast_pos.ne', mul_div_assoc]

theorem rankValue_add_succ_eq (d : Decimal) (r : Nat) : rankValue r + rankValue (r + 1) =
    ((d.denominator * Binary64.middle r : Nat) : ℚ) / ((d.denominator * unitsPerOne : Nat) : ℚ) := by
  have hpos : (d.denominator : ℚ) ≠ 0 := (Nat.cast_pos.mpr d.denominator_pos).ne'
  rw [rankValue, rankValue, ← add_div, Binary64.middle]
  push_cast
  rw [mul_div_mul_left _ _ hpos]

/-- A decimal lies between the two middles around the rank that it is read as, and that rank is even
if the decimal lies in one of them. -/
theorem nearestRank_between (d : Decimal) :
    (2 * d.value ≤ rankValue d.nearestRank + rankValue (d.nearestRank + 1) ∧
      (2 * d.value = rankValue d.nearestRank + rankValue (d.nearestRank + 1) →
        d.nearestRank % 2 = 0)) ∧
    ∀ k, d.nearestRank = k + 1 → rankValue k + rankValue (k + 1) ≤ 2 * d.value ∧
      (2 * d.value = rankValue k + rankValue (k + 1) → d.nearestRank % 2 = 0) := by
  have hpos : (0 : ℚ) < ((d.denominator * unitsPerOne : Nat) : ℚ) :=
    Nat.cast_pos.mpr (Nat.mul_pos d.denominator_pos Binary64.unitsPerOne_pos)
  have hbetween := Binary64.nearestRank_between (d.numerator * unitsPerOne) d.denominator_pos
  obtain ⟨⟨hup, hupeven⟩, hlow⟩ := hbetween
  simp only [two_mul_value_eq d, rankValue_add_succ_eq d, div_le_div_iff_of_pos_right hpos,
    div_left_inj' hpos.ne', Nat.cast_le, Nat.cast_inj]
  exact ⟨⟨hup, hupeven⟩, hlow⟩

/-- No other value is closer to a decimal than the one that it is read as. -/
theorem abs_rankValue_sub_le (d : Decimal) {s : Nat} (hs : s ≠ d.nearestRank) :
    |rankValue d.nearestRank - d.value| ≤ |rankValue s - d.value| ∧
      (|rankValue d.nearestRank - d.value| = |rankValue s - d.value| →
        d.nearestRank % 2 = 0) := by
  obtain ⟨⟨hup, hupeven⟩, hlow⟩ := d.nearestRank_between
  obtain hlt | hgt := Nat.lt_or_gt_of_ne hs
  · obtain ⟨k, hk⟩ : ∃ k, d.nearestRank = k + 1 := ⟨d.nearestRank - 1, by omega⟩
    obtain ⟨hbelow, heven⟩ := hlow k hk
    -- the mirror image of the case above
    have hmirror := @abs_sub_le_of_le_middle (-rankValue d.nearestRank) (-rankValue k)
      (-rankValue s) (-d.value) (neg_lt_neg (rankValue_strictMono (by omega)))
      (neg_le_neg (rankValue_strictMono.monotone (by omega))) (by rw [hk]; linarith)
    rw [neg_sub_neg, neg_sub_neg, abs_sub_comm d.value, abs_sub_comm d.value] at hmirror
    exact ⟨hmirror.1, fun heq => heven (by rw [← hk]; linarith [hmirror.2 heq])⟩
  · obtain ⟨hle, htie⟩ := abs_sub_le_of_le_middle (rankValue_strictMono (Nat.lt_succ_self _))
      (rankValue_strictMono.monotone hgt) hup
    exact ⟨hle, fun heq => hupeven (htie heq)⟩

end Decimal

/-! ### Values with a sign -/

namespace Binary64

/-- A value is no closer to a number than the value of its magnitude with the sign of the number. -/
theorem abs_sub_le_abs_value_sub (z : Finite) (negative : Bool) {q : ℚ} (hq : 0 ≤ q) :
    |rankValue z.rank - q| ≤ |z.value - withSign negative q| := by
  rw [Finite.value_eq]
  by_cases hsign : z.negative = negative
  · rw [hsign, abs_withSign_sub]
  · rw [abs_withSign_sub_of_ne hsign (rankValue_nonneg _) hq, abs_le]
    have hz := rankValue_nonneg z.rank
    constructor <;> linarith

/-- **Reading is correctly rounded.** A decimal that is read as a finite value is read as the one
nearest to it. -/
theorem isNearest_of_ofDecimal {negative : Bool} {d : Decimal} {y : Finite}
    (h : ofDecimal negative d = .finite y) : IsNearest (withSign negative d.value) y := by
  obtain ⟨hsign, hrank⟩ := ofDecimal_eq_finite_iff.mp h
  have hy : |y.value - withSign negative d.value| = |rankValue y.rank - d.value| := by
    rw [Finite.value_eq, hsign, abs_withSign_sub]
  have hother : ∀ s, s ≠ y.rank → |rankValue y.rank - d.value| ≤ |rankValue s - d.value| ∧
      (|rankValue y.rank - d.value| = |rankValue s - d.value| → y.rank % 2 = 0) := by
    intro s hs
    rw [hrank] at hs ⊢
    exact d.abs_rankValue_sub_le hs
  constructor
  · intro z
    rw [hy]
    refine le_trans ?_ (abs_sub_le_abs_value_sub z negative d.value_nonneg)
    by_cases hz : z.rank = y.rank
    · rw [hz]
    · exact (hother z.rank hz).1
  · intro z hne htie
    rw [hy] at htie
    by_cases hz : z.rank = y.rank
    · -- the opposite value is as close only to zero, and then both values are zero
      have hopposite : z.negative ≠ negative := by
        intro heq
        exact hne (by rw [Finite.value_eq, Finite.value_eq, hz, heq, hsign])
      obtain hzero | hpos := Nat.eq_zero_or_pos y.rank
      · rw [hzero]
      · have hle := (hother 0 hpos.ne).1
        have hlt := rankValue_strictMono hpos
        rw [rankValue_zero] at hle hlt
        rw [Finite.value_eq z, hz, abs_withSign_sub_of_ne hopposite hlt.le d.value_nonneg] at htie
        rw [zero_sub, abs_neg, abs_of_nonneg d.value_nonneg] at hle
        linarith
    · obtain ⟨hle, heven⟩ := hother z.rank hz
      have hge := htie.ge.trans' (abs_sub_le_abs_value_sub z negative d.value_nonneg)
      exact heven (le_antisymm hle hge)

end Binary64

end DeskCalculator.Numeric
