import Mathlib.Algebra.Order.Floor.Semifield
import Mathlib.Data.Rat.Floor
import DeskCalculator.Calculation
import DeskCalculator.Proofs.Numeric.ShortestDecimal

/-!
# DeskCalculator.Proofs.Numeric.ResultRounding

Rounding a result has a result.

* **Rounding to places** is a floor (`Decimal.roundTo_eq_floor`). So it keeps the order, and does
  not pass a decimal that has no more places.
* **Few digits are needed.** The shortest decimal of a finite value is below `10 ^ 310`
  (`digitCount_roundTo_shortest_le`).
* **The rounded decimal is read as a finite value** (`exists_roundedResult`): below the greatest
  finite value, which is a whole number, nothing rounds past it, and that value itself has no places
  to round.
-/

namespace DeskCalculator

open Numeric (Binary64 Decimal)
open Numeric.Binary64 (Finite shortest rankBound rankValue units unitsPerOne)

/-- How many digits there is room for when a result is rounded. -/
def roundingDigits : Nat := 400

namespace Numeric

/-! ### Rounding to places -/

theorem roundHalfUp_eq_floor (n : Nat) {d : Nat} (hd : 0 < d) :
    roundHalfUp n d = ⌊(n / d + 1 / 2 : ℚ)⌋₊ := by
  have hd' : (d : ℚ) ≠ 0 := (Nat.cast_pos.mpr hd).ne'
  have hquot : (n / d + 1 / 2 : ℚ) = ((2 * n + d : Nat) : ℚ) / ((2 * d : Nat) : ℚ) := by
    push_cast
    field_simp
  rw [hquot, Nat.floor_div_eq_div, roundHalfUp]

namespace Decimal

/-- Rounding to places, as a floor. -/
theorem roundTo_eq_floor (d : Decimal) (places : Nat) :
    d.roundTo places = ⌊d.value * 10 ^ places + 1 / 2⌋₊ := by
  have hpow : ∀ n, Nat.pow 10 n = 10 ^ n := fun _ => rfl
  have hscaled : d.value * 10 ^ places = d.coefficient * 10 ^ (d.exponent + places) := by
    rw [value, zpow_add₀ (by norm_num), zpow_natCast, mul_assoc]
  rw [roundTo, hscaled, hpow, hpow]
  split
  · rename_i hplaces
    obtain ⟨zeros, hzeros⟩ := Int.eq_ofNat_of_zero_le hplaces
    rw [hzeros, zpow_natCast, Int.toNat_natCast, eq_comm, Nat.floor_eq_iff (by positivity)]
    push_cast
    constructor <;> linarith
  · have hunit : 0 < 10 ^ (-(d.exponent + places)).toNat := Nat.pow_pos (by decide)
    have hexp : d.exponent + places = -((-(d.exponent + places)).toNat : Int) := by omega
    conv_rhs => rw [hexp, zpow_neg, zpow_natCast, ← div_eq_mul_inv]
    rw [roundHalfUp_eq_floor _ hunit]
    push_cast
    rfl

/-- Rounding to places keeps the order. -/
theorem roundTo_mono (places : Nat) {a b : Decimal} (h : a.value ≤ b.value) :
    a.roundTo places ≤ b.roundTo places := by
  rw [roundTo_eq_floor, roundTo_eq_floor]
  refine Nat.floor_mono (add_le_add_left (mul_le_mul_of_nonneg_right h ?_) _)
  positivity

/-- The rounded number is at most half a place away, and above if it is half a place away. -/
theorem roundTo_between (d : Decimal) (places : Nat) :
    (d.roundTo places : ℚ) - d.value * 10 ^ places ≤ 1 / 2 ∧
      d.value * 10 ^ places - d.roundTo places < 1 / 2 := by
  have hnonneg : 0 ≤ d.value * 10 ^ places + 1 / 2 :=
    add_nonneg (mul_nonneg d.value_nonneg (by positivity)) (by norm_num)
  have hlow := Nat.floor_le hnonneg
  have hup := Nat.lt_floor_add_one (d.value * 10 ^ places + 1 / 2)
  rw [← roundTo_eq_floor] at hlow hup
  constructor <;> linarith

/-- Rounding does not pass a decimal that has no more places. -/
theorem roundTo_le {d : Decimal} {places k : Nat}
    (h : d.value ≤ (⟨k, -(places : Int)⟩ : Decimal).value) : d.roundTo places ≤ k := by
  have hself : (⟨k, -(places : Int)⟩ : Decimal).roundTo places = k := by simp [roundTo]
  exact (roundTo_mono places h).trans_eq hself

end Decimal

/-! ### Rounding a finite value -/

namespace Binary64

/-- The greatest rank of a finite value. -/
def greatestRank : Nat := rankBound - 1

/-- The shortest decimal of a finite value is below `10 ^ 310`. -/
theorem value_shortest_le {rank : Nat} (h : rank < rankBound) :
    (shortest rank).value ≤ (⟨1, 310⟩ : Decimal).value := by
  by_contra hlarge
  have hbound : rankBound ≤ (⟨1, 310⟩ : Decimal).nearestRank := by decide +kernel
  have hrank := Decimal.nearestRank_le_nearestRank (not_le.mp hlarge).le
  rw [nearestRank_shortest] at hrank
  omega

/-- A result has fewer digits when it is rounded than there is room for. -/
theorem digitCount_roundTo_shortest_le {rank : Nat} (h : rank < rankBound) :
    digitCount ((shortest rank).roundTo resultPlaces) ≤ roundingDigits := by
  obtain ⟨digits, hdigits⟩ : ∃ n : Nat, n = 310 + resultPlaces := ⟨_, rfl⟩
  have hshift := Decimal.value_shift 1 digits (-(resultPlaces : Int))
  have hexp : -(resultPlaces : Int) + digits = 310 := by omega
  rw [Nat.one_mul, hexp] at hshift
  have hround := Decimal.roundTo_le ((value_shortest_le h).trans_eq hshift.symm)
  rw [digitCount_le_iff (by decide)]
  have hlt : digits < roundingDigits := by
    rw [hdigits]
    decide
  exact hround.trans_lt (Nat.pow_lt_pow_right (by decide) hlt)

/-- The greatest finite value is a whole number. -/
theorem exists_value_eq_rankValue_greatestRank :
    ∃ k, (⟨k, -(resultPlaces : Int)⟩ : Decimal).value = rankValue greatestRank := by
  refine ⟨units greatestRank / unitsPerOne * 10 ^ 12, le_antisymm ?_ ?_⟩
  · rw [Decimal.value_le_rankValue_iff]
    decide +kernel
  · rw [Decimal.rankValue_le_value_iff]
    decide +kernel

/-- A finite value is not rounded past the greatest one. -/
theorem nearestRank_roundTo_lt {rank : Nat} (h : rank < rankBound) :
    (⟨(shortest rank).roundTo resultPlaces, -(resultPlaces : Int)⟩ : Decimal).nearestRank <
      rankBound := by
  obtain ⟨k, hk⟩ := exists_value_eq_rankValue_greatestRank
  rcases le_total (shortest rank).value (rankValue greatestRank) with hle | hge
  · have hround := Decimal.value_mono (Decimal.roundTo_le (hle.trans_eq hk.symm))
      (-(resultPlaces : Int))
    have hrank := Decimal.nearestRank_le_of_le (hround.trans_eq hk)
    have : greatestRank < rankBound := by decide
    omega
  · -- only the greatest value has a shortest decimal above it, and that has no places at all
    have hrank := Decimal.le_nearestRank_of_le hge
    rw [nearestRank_shortest] at hrank
    obtain rfl : rank = greatestRank := by
      rw [greatestRank] at hrank ⊢
      omega
    decide +kernel

end Binary64

end Numeric

/-- A rounded value is finite. -/
theorem exists_roundedResult (x : Finite) : ∃ y, roundedResult x = .finite y :=
  ⟨⟨x.negative, _, Numeric.Binary64.nearestRank_roundTo_lt x.rank_lt⟩,
    Numeric.Binary64.ofDecimal_eq_finite_iff.mpr ⟨rfl, rfl⟩⟩

end DeskCalculator
