import DeskCalculator.Numeric.Arithmetic
import DeskCalculator.Proofs.Numeric.WholeValue

/-!
# DeskCalculator.Proofs.Numeric.WholeArithmetic

Sums, differences and products of whole numbers are exact up to `2 ^ 53`.

* **Every whole number up to there is a value**, so rounding a fraction that is one changes nothing
  (`isInteger_ofFraction`).
* **The operands do not need a bound.** It is the exact result that has to be small enough, and zero
  is one result whichever sign it comes out with.
-/

namespace DeskCalculator.Numeric.Binary64

/-- A binary number is an integer. Both zeros are the integer zero. -/
def IsInteger (z : Binary64) (n : Int) : Prop :=
  ∃ x : Finite, z = .finite x ∧ x.signedUnits = n * unitsPerOne

variable {a b : Binary64} {m n : Int}

/-- Whole numbers up to `2 ^ 53` are finite values. -/
theorem lt_rankBound_of_units_eq {rank k : Nat} (hk : k ≤ 2 * fractionCount)
    (h : units rank = k * unitsPerOne) : rank < rankBound := by
  have hbound : 2 * fractionCount * unitsPerOne < units rankBound := by decide +kernel
  refine units_strictMono.lt_iff_lt.mp ?_
  calc units rank = k * unitsPerOne := h
    _ ≤ 2 * fractionCount * unitsPerOne := Nat.mul_le_mul_right _ hk
    _ < units rankBound := hbound

/-- A fraction that is a small enough integer is not rounded. -/
theorem isInteger_ofFraction {negative : Bool} {numerator d : Nat} (hd : 0 < d)
    (hn : n.natAbs ≤ 2 * fractionCount) (hnumerator : numerator = n.natAbs * unitsPerOne * d)
    (hsign : n = if negative then -(n.natAbs : Int) else n.natAbs) :
    (ofFraction negative numerator d).IsInteger n := by
  obtain ⟨rank, hrank⟩ := exists_units_eq hn
  rw [hnumerator, ← hrank,
    ofFraction_eq_finite (lt_rankBound_of_units_eq hn hrank) (nearestRank_units rank hd)]
  refine ⟨_, rfl, ?_⟩
  rw [Finite.signedUnits, Finite.magnitude, hrank, Int.natCast_mul]
  conv_rhs => rw [hsign]
  cases negative with
  | false => simp only [Bool.false_eq_true, if_false]
  | true => simp only [if_true, Int.neg_mul]

theorem isInteger_zero (negative : Bool) : (zero negative).IsInteger 0 := by
  refine ⟨_, rfl, ?_⟩
  rw [Int.zero_mul]
  exact Finite.signedUnits_eq_zero_iff.mpr rfl

theorem IsInteger.neg (h : a.IsInteger n) : a.neg.IsInteger (-n) := by
  obtain ⟨x, rfl, hx⟩ := h
  refine ⟨x.neg, rfl, ?_⟩
  rw [Finite.signedUnits_neg, hx, Int.neg_mul]

theorem IsInteger.add (ha : a.IsInteger m) (hb : b.IsInteger n)
    (hbound : (m + n).natAbs ≤ 2 * fractionCount) : (a.add b).IsInteger (m + n) := by
  obtain ⟨x, rfl, hx⟩ := ha
  obtain ⟨y, rfl, hy⟩ := hb
  have hone : (0 : Int) < unitsPerOne := Int.natCast_pos.mpr unitsPerOne_pos
  have hsum : x.signedUnits + y.signedUnits = (m + n) * unitsPerOne := by
    rw [hx, hy, Int.add_mul]
  rw [add_finite, Finite.add, hsum]
  by_cases hzero : m + n = 0
  · rw [hzero, Int.zero_mul, if_pos rfl]
    exact isInteger_zero _
  · rw [if_neg (Int.mul_ne_zero hzero hone.ne')]
    refine isInteger_ofFraction Nat.one_pos hbound ?_ ?_
    · rw [Int.natAbs_mul, Int.natAbs_natCast, Nat.mul_one]
    · -- ones are positive, so the sum in units has the sign of the sum in ones
      have hneg : (m + n) * unitsPerOne < 0 ↔ m + n < 0 := by
        constructor
        · intro h
          exact neg_of_mul_neg_left h hone.le
        · intro h
          exact Int.mul_neg_of_neg_of_pos h hone
      simp only [hneg, decide_eq_true_eq]
      omega

theorem IsInteger.sub (ha : a.IsInteger m) (hb : b.IsInteger n)
    (hbound : (m - n).natAbs ≤ 2 * fractionCount) : (a.sub b).IsInteger (m - n) := by
  rw [Int.sub_eq_add_neg] at hbound ⊢
  exact ha.add hb.neg hbound

theorem IsInteger.mul (ha : a.IsInteger m) (hb : b.IsInteger n)
    (hbound : (m * n).natAbs ≤ 2 * fractionCount) : (a.mul b).IsInteger (m * n) := by
  obtain ⟨x, rfl, hx⟩ := ha
  obtain ⟨y, rfl, hy⟩ := hb
  obtain ⟨hxunits, hxsign⟩ := Finite.eq_of_signedUnits_eq_mul hx
  obtain ⟨hyunits, hysign⟩ := Finite.eq_of_signedUnits_eq_mul hy
  rw [mul_finite, Finite.mul]
  refine isInteger_ofFraction unitsPerOne_pos hbound ?_ ?_
  · rw [hxunits, hyunits, Int.natAbs_mul]
    ring
  · rw [Int.natAbs_mul, Nat.cast_mul]
    conv_lhs => rw [hxsign, hysign]
    cases x.negative <;> cases y.negative <;> simp

/-- Digits are read as the integer that they denote. -/
theorem isInteger_ofDecimal {k : Nat} (hk : k ≤ 2 * fractionCount) :
    (ofDecimal false ⟨k, 0⟩).IsInteger k := by
  rw [ofDecimal_eq]
  refine isInteger_ofFraction (Decimal.denominator_pos _) hk ?_ rfl
  show k * 1 * unitsPerOne = k * unitsPerOne * 1
  ring

end DeskCalculator.Numeric.Binary64
