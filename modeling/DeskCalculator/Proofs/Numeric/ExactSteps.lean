import DeskCalculator.Expression.Evaluation
import DeskCalculator.Proofs.Numeric.NearestRank

/-!
# DeskCalculator.Proofs.Numeric.ExactSteps

The two steps that evaluation takes by itself, on finite values: a sign is exact, and a percent sign
never leaves the finite values.
-/

namespace DeskCalculator.Numeric.Binary64

theorem rankBound_pos : 0 < rankBound := by decide

/-- The positive zero. -/
def Finite.positiveZero : Finite := ⟨false, 0, rankBound_pos⟩

theorem zero_false : zero false = .finite Finite.positiveZero := rfl

theorem Finite.isZero_iff {x : Finite} : x.isZero = true ↔ x.rank = 0 := beq_iff_eq

theorem Finite.rank_pos {x : Finite} (h : ¬ x.isZero = true) : 0 < x.rank :=
  Nat.pos_of_ne_zero fun hrank => h (isZero_iff.mpr hrank)

theorem Finite.signedUnits_eq_zero_iff {x : Finite} : x.signedUnits = 0 ↔ x.isZero = true := by
  have hmag : x.magnitude = 0 ↔ x.rank = 0 := by
    constructor
    · intro h
      by_contra hne
      exact absurd h (units_pos (Nat.pos_of_ne_zero hne)).ne'
    · intro h
      simp [magnitude, h]
  cases hneg : x.negative <;> simp [signedUnits, isZero, hneg, hmag]

/-- A value added to zero is that value, except that the sum of zeros is the positive one. -/
theorem zero_add (x : Finite) :
    add (zero false) (.finite x) = .finite (if x.isZero then Finite.positiveZero else x) := by
  have hzero : (Finite.positiveZero).signedUnits = 0 := rfl
  rw [zero_false, add_finite, Finite.add, hzero, Int.zero_add]
  cases hx : x.isZero with
  | true => simp [Finite.signedUnits_eq_zero_iff.mpr hx, Finite.positiveZero, zero]
  | false =>
    have hne : x.signedUnits ≠ 0 := by
      simp [Finite.signedUnits_eq_zero_iff.not, hx]
    have hneg : decide (x.signedUnits < 0) = x.negative := by
      cases hs : x.negative <;> simp [Finite.signedUnits, hs] at hne ⊢
      omega
    have habs : x.signedUnits.natAbs = units x.rank := by
      cases hs : x.negative <;> simp [Finite.signedUnits, Finite.magnitude, hs]
    have hrank : nearestRank (units x.rank) 1 = x.rank := by
      simpa using nearestRank_units x.rank Nat.one_pos
    rw [if_neg hne, hneg, habs, ofFraction_eq_finite x.rank_lt hrank]
    simp

/-- A value taken away from zero is the opposite value, except that zero stays positive. -/
theorem zero_sub (x : Finite) :
    sub (zero false) (.finite x) = .finite (if x.isZero then Finite.positiveZero else x.neg) := by
  exact zero_add x.neg

open Expression (hundred)

theorem exists_hundred : ∃ h : Finite, hundred = .finite h ∧ h.isZero = false ∧
    h.negative = false ∧ h.magnitude = 100 * unitsPerOne :=
  ⟨⟨false, 4636737291354636288, by decide⟩, by decide +kernel, by decide, rfl, by decide +kernel⟩

/-- A hundredth of a finite value is finite. -/
theorem exists_div_hundred (x : Finite) : ∃ q, div (.finite x) hundred = .finite q := by
  obtain ⟨h, hhundred, hzero, hneg, hmag⟩ := exists_hundred
  -- the quotient is not above the value itself
  have hle : nearestRank (x.magnitude * unitsPerOne) (100 * unitsPerOne) ≤ x.rank := by
    have hself : nearestRank (units x.rank) 1 = x.rank := by
      simpa using nearestRank_units x.rank Nat.one_pos
    refine (nearestRank_mono (Nat.mul_pos (by decide) unitsPerOne_pos) Nat.one_pos ?_).trans
      hself.le
    rw [Finite.magnitude]
    calc units x.rank * unitsPerOne * 1
      _ = units x.rank * unitsPerOne := Nat.mul_one _
      _ ≤ units x.rank * (100 * unitsPerOne) :=
          Nat.mul_le_mul_left _ (Nat.le_mul_of_pos_left _ (by decide))
  refine ⟨⟨x.negative, _, Nat.lt_of_le_of_lt hle x.rank_lt⟩, ?_⟩
  rw [hhundred, div_finite, Finite.div, hzero, hneg, hmag, Bool.bne_false, if_neg (by simp)]
  exact ofFraction_eq_finite (Nat.lt_of_le_of_lt hle x.rank_lt) rfl

end DeskCalculator.Numeric.Binary64
