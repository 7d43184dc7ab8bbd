import DeskCalculator.Proofs.Definedness
import DeskCalculator.Proofs.Numeric.NearestValue
import DeskCalculator.Proofs.Numeric.ShortestLaw
import DeskCalculator.Proofs.Recalculation

/-!
# DeskCalculator.Proofs.Rounding

The law of rounding a result.

* **To a multiple.** The shortest decimal of a value is rounded to the closest multiple of
  `10 ^ (-12)`, a half going away from zero (`isClosestMultiple_roundTo`), and that to the nearest
  value.
* **Order.** Each of the three roundings keeps the order: to the shortest decimal, because it reads
  back (`value_shortest_mono`), to the multiple, because that is a floor (`roundTo_eq_floor`), and
  to the nearest value.
* **Fixed values.** A multiple is its own closest one, and the value nearest to a shortest decimal
  is the one it is of. Seventeen digits are no more than twelve places from `10000` on.

Main statement: `roundedResult_law`, for every finite value.
-/

namespace DeskCalculator

open Numeric (Binary64 Decimal abs_mul_sub half_le_abs_sub ten_zpow_pos withSign)
open Numeric.Binary64 (Finite IsNearest IsShortest rankValue shortest units leadingPlace)

/-- What the results of calculations are multiples of. -/
def resultUnit : ℚ := 10 ^ (-(resultPlaces : Int))

/-- The multiple of the unit that is closest to a number. -/
structure IsClosestMultiple (q : ℚ) (k : ℤ) : Prop where
  closest : ∀ j : ℤ, |k * resultUnit - q| ≤ |j * resultUnit - q|
  /-- A half goes away from zero. -/
  away_of_tie : ∀ j : ℤ, j ≠ k → |k * resultUnit - q| = |j * resultUnit - q| → |j| < |k|

/-- The shortest decimal of a finite value, as a number. -/
def Numeric.Binary64.Finite.shortestValue (x : Finite) : ℚ :=
  withSign x.negative (shortest x.rank).value

theorem resultUnit_pos : 0 < resultUnit := ten_zpow_pos _

/-! ### Rounding to a multiple -/

theorem div_resultUnit (q : ℚ) : q / resultUnit = q * 10 ^ resultPlaces := by
  rw [resultUnit, zpow_neg, zpow_natCast, div_inv_eq_mul]

/-- A number of units as a decimal. -/
theorem value_places (r : Nat) :
    (⟨r, -(resultPlaces : Int)⟩ : Decimal).value = ((r : ℤ) : ℚ) * resultUnit := by
  rw [Int.cast_natCast]
  rfl

/-- Another number is as close as the one rounded to only if that is half a unit above, and then it
is the number before. -/
theorem eq_pred_of_tie {r j : ℤ} {t : ℚ} (hup : r - t ≤ 1 / 2) (hlow : t - r < 1 / 2) (hj : j ≠ r)
    (htie : |(r : ℚ) - t| = |(j : ℚ) - t|) : (r : ℚ) = t + 1 / 2 ∧ j = r - 1 := by
  have hhalf : |(r : ℚ) - t| ≤ 1 / 2 := abs_le.mpr ⟨by linarith, hup⟩
  have hfar := half_le_abs_sub hhalf hj
  have hself : |(r : ℚ) - t| = 1 / 2 := le_antisymm hhalf (hfar.trans_eq htie.symm)
  have hr : (r : ℚ) = t + 1 / 2 := by
    obtain h | h := (abs_eq (by norm_num)).mp hself <;> linarith
  refine ⟨hr, ?_⟩
  obtain h | h := (abs_eq (by norm_num)).mp (htie.symm.trans hself)
  · have hsame : (j : ℚ) = r := by linarith
    exact absurd (Int.cast_injective hsame) hj
  · have hless : (j : ℚ) = ((r - 1 : ℤ) : ℚ) := by
      push_cast
      linarith
    exact Int.cast_injective hless

/-- The rounded number is the closest multiple. -/
theorem isClosestMultiple_roundTo (d : Decimal) :
    IsClosestMultiple d.value (d.roundTo resultPlaces : Nat) := by
  obtain ⟨hup, hlow⟩ := d.roundTo_between resultPlaces
  have hnonneg : 0 ≤ d.value / resultUnit := div_nonneg d.value_nonneg resultUnit_pos.le
  rw [← div_resultUnit, ← Int.cast_natCast] at hup hlow
  generalize (d.roundTo resultPlaces) = r at hup hlow ⊢
  generalize ht : d.value / resultUnit = t at hup hlow hnonneg
  constructor
  · intro j
    rw [abs_mul_sub resultUnit_pos, abs_mul_sub resultUnit_pos, ht]
    refine mul_le_mul_of_nonneg_right ?_ resultUnit_pos.le
    have hhalf : |((r : ℤ) : ℚ) - t| ≤ 1 / 2 := abs_le.mpr ⟨by linarith, hup⟩
    by_cases hj : j = r
    · rw [hj]
    · exact hhalf.trans (half_le_abs_sub hhalf hj)
  · intro j hj htie
    rw [abs_mul_sub resultUnit_pos, abs_mul_sub resultUnit_pos, ht] at htie
    obtain ⟨hr, hpred⟩ := eq_pred_of_tie hup hlow hj (mul_right_cancel₀ resultUnit_pos.ne' htie)
    have hpos : 0 < (r : ℤ) := by
      have hpos' : (0 : ℚ) < (r : ℤ) := by linarith
      exact_mod_cast hpos'
    rw [hpred, abs_of_nonneg (by omega), abs_of_nonneg (by omega)]
    omega

/-- There is only one. -/
theorem IsClosestMultiple.unique {q : ℚ} {j k : ℤ} (hj : IsClosestMultiple q j)
    (hk : IsClosestMultiple q k) : j = k := by
  by_contra hne
  have htie := le_antisymm (hk.closest j) (hj.closest k)
  have hlt := hk.away_of_tie j hne htie
  have hgt := hj.away_of_tie k (Ne.symm hne) htie.symm
  exact absurd hlt hgt.not_gt

/-- Opposite numbers have opposite closest multiples. -/
theorem IsClosestMultiple.neg {q : ℚ} {k : ℤ} (h : IsClosestMultiple q k) :
    IsClosestMultiple (-q) (-k) := by
  have hmirror : ∀ j : ℤ, |(j : ℚ) * resultUnit - -q| = |((-j : ℤ) : ℚ) * resultUnit - q| := by
    intro j
    rw [← abs_neg]
    congr 1
    push_cast
    ring
  constructor
  · intro j
    rw [hmirror, hmirror, neg_neg]
    exact h.closest (-j)
  · intro j hj htie
    rw [hmirror, hmirror, neg_neg] at htie
    have haway := h.away_of_tie (-j) (fun heq => hj (by rw [← heq, neg_neg])) htie
    rwa [abs_neg, ← abs_neg k] at haway

/-! ### Order -/

/-- The rank of a rounded value, from the rank of the value. -/
def roundedRank (rank : Nat) : Nat :=
  (⟨(shortest rank).roundTo resultPlaces, -(resultPlaces : Int)⟩ : Decimal).nearestRank

theorem roundedRank_zero : roundedRank 0 = 0 := by decide +kernel

theorem roundedRank_mono : Monotone roundedRank := fun _ _ h =>
  Decimal.nearestRank_le_nearestRank (Decimal.value_mono
    (Decimal.roundTo_mono resultPlaces (Numeric.Binary64.value_shortest_mono h)) _)

theorem roundedResult_eq_finite_iff {x y : Finite} :
    roundedResult x = .finite y ↔ y.negative = x.negative ∧ y.rank = roundedRank x.rank :=
  Numeric.Binary64.ofDecimal_eq_finite_iff

/-- Rounding a result keeps the order. -/
theorem value_roundedResult_mono {x x' y y' : Finite} (h : x.value ≤ x'.value)
    (hy : roundedResult x = .finite y) (hy' : roundedResult x' = .finite y') :
    y.value ≤ y'.value := by
  obtain ⟨hsign, hrank⟩ := roundedResult_eq_finite_iff.mp hy
  obtain ⟨hsign', hrank'⟩ := roundedResult_eq_finite_iff.mp hy'
  rw [Finite.value_eq, Finite.value_eq] at h ⊢
  rw [hsign, hsign', hrank, hrank']
  have hmono : ∀ a b : Nat, rankValue a ≤ rankValue b →
      rankValue (roundedRank a) ≤ rankValue (roundedRank b) := fun a b hab =>
    Binary64.rankValue_strictMono.monotone
      (roundedRank_mono (Binary64.rankValue_strictMono.le_iff_le.mp hab))
  have hnonneg := Numeric.Binary64.rankValue_nonneg
  cases hx : x.negative <;> cases hx' : x'.negative <;>
    simp only [hx, hx', Numeric.withSign_false, Numeric.withSign_true] at h ⊢
  · exact hmono _ _ h
  · -- both are zero
    have hx0 := hmono x.rank 0
    have hx0' := hmono x'.rank 0
    rw [roundedRank_zero, Numeric.Binary64.rankValue_zero] at hx0 hx0'
    have hleft := hx0 (by linarith [hnonneg x'.rank])
    have hright := hx0' (by linarith [hnonneg x.rank])
    linarith
  · exact (neg_nonpos.mpr (hnonneg _)).trans (hnonneg _)
  · exact neg_le_neg (hmono _ _ (neg_le_neg_iff.mp h))

/-! ### Fixed values -/

/-- A value of at least `10000` has a shortest decimal with at most twelve places. -/
theorem neg_resultPlaces_le_of_le {rank : Nat} (h : 10000 ≤ rankValue rank) :
    -(resultPlaces : Int) ≤ (shortest rank).exponent := by
  have hpos : 0 < rank := by
    obtain rfl | hpos := Nat.eq_zero_or_pos rank
    · rw [Numeric.Binary64.rankValue_zero] at h
      norm_num at h
    · exact hpos
  have hplace := h.trans_lt (Numeric.Binary64.rankValue_lt_of_leadingPlace hpos)
  have hleast := Numeric.Binary64.leadingPlace_sub_le_exponent_shortest hpos
  generalize leadingPlace (units rank) = place at hplace hleast
  have hdigits : (10 : ℚ) ^ (4 : Int) < 10 ^ place := by
    rw [Decimal.value, Nat.cast_one, one_mul] at hplace
    exact lt_of_eq_of_lt (by norm_num) hplace
  have hfour := (zpow_lt_zpow_iff_right₀ (by norm_num)).mp hdigits
  rw [resultPlaces]
  omega

/-- A value that is a multiple of the unit is rounded to itself. -/
theorem roundedResult_eq_self_of_multiple {x : Finite} {k : ℤ}
    (h : x.shortestValue = k * resultUnit) : roundedResult x = .finite x := by
  refine roundedResult_eq_finite_iff.mpr ⟨rfl, ?_⟩
  -- no multiple is closer to the shortest decimal than the shortest decimal itself
  have hclosest := (isClosestMultiple_roundTo (shortest x.rank)).closest
  have hmultiple : ∃ j : ℤ, (j : ℚ) * resultUnit = (shortest x.rank).value := by
    rw [Finite.shortestValue] at h
    cases hsign : x.negative with
    | false => exact ⟨k, by rw [← h, hsign, Numeric.withSign_false]⟩
    | true =>
      rw [hsign, Numeric.withSign_true] at h
      refine ⟨-k, ?_⟩
      rw [Int.cast_neg, neg_mul, ← h, neg_neg]
  obtain ⟨j, hj⟩ := hmultiple
  have hzero := hclosest j
  rw [hj, sub_self, abs_zero, abs_nonpos_iff, sub_eq_zero, ← value_places] at hzero
  exact ((Decimal.nearestRank_congr hzero).trans
    (Numeric.Binary64.nearestRank_shortest x.rank)).symm

/-! ### The law -/

/-- A result is rounded to the value nearest to the multiple closest to its shortest decimal. -/
theorem exists_isClosestMultiple_isNearest {x y : Finite} (h : roundedResult x = .finite y) :
    ∃ k : ℤ, (∀ j, IsClosestMultiple x.shortestValue j ↔ j = k) ∧ IsNearest (k * resultUnit) y := by
  have honly : ∀ k, IsClosestMultiple x.shortestValue k →
      ∀ j, IsClosestMultiple x.shortestValue j ↔ j = k := by
    intro k hk j
    constructor
    · exact fun hj => hj.unique hk
    · rintro rfl
      exact hk
  have hclosest := isClosestMultiple_roundTo (shortest x.rank)
  have hnearest := Numeric.Binary64.isNearest_of_ofDecimal h
  rw [value_places] at hnearest
  cases hsign : x.negative with
  | false =>
    rw [hsign] at hnearest
    refine ⟨_, honly _ ?_, hnearest⟩
    rw [Finite.shortestValue, hsign]
    exact hclosest
  | true =>
    rw [hsign, Numeric.withSign_true, ← neg_mul, ← Int.cast_neg] at hnearest
    refine ⟨_, honly _ ?_, hnearest⟩
    rw [Finite.shortestValue, hsign]
    exact hclosest.neg

/-- **The law of rounding.** Rounding has a result for every finite value, a finite value of the
same sign: the one nearest to the multiple of `10 ^ (-12)` that is closest to the shortest decimal,
a half going away from zero. It keeps the order, and changes no value whose shortest decimal is such
a multiple, so none from `10000` on. -/
theorem roundedResult_law (x : Finite) :
    IsShortest x.rank (shortest x.rank) ∧
      ∃ y : Finite, roundedResult? x = some (.finite y) ∧ y.negative = x.negative ∧
        (∃ k : ℤ, (∀ j, IsClosestMultiple x.shortestValue j ↔ j = k) ∧
          IsNearest (k * resultUnit) y) ∧
        (∀ x' y' : Finite, roundedResult? x' = some (.finite y') → x.value ≤ x'.value →
          y.value ≤ y'.value) ∧
        ((∃ k : ℤ, x.shortestValue = k * resultUnit) → y = x) ∧
        (10000 ≤ |x.value| → y = x) := by
  obtain ⟨y, hy⟩ := exists_roundedResult x
  have hself : roundedResult x = .finite x → y = x := fun h => Binary64.finite.inj (hy.symm.trans h)
  refine ⟨Numeric.Binary64.isShortest_shortest x.rank, y, ?_,
    (roundedResult_eq_finite_iff.mp hy).1, exists_isClosestMultiple_isNearest hy, ?_, ?_, ?_⟩
  · rw [roundedResult?_eq, hy]
  · intro x' y' hy' hle
    rw [roundedResult?_eq, Option.some.injEq] at hy'
    exact value_roundedResult_mono hle hy hy'
  · intro ⟨k, hk⟩
    exact hself (roundedResult_eq_self_of_multiple hk)
  · intro hlarge
    rw [Finite.abs_value] at hlarge
    exact hself (roundedResult_eq_self (neg_resultPlaces_le_of_le hlarge))

/-- Half a unit goes away from zero. -/
example : Outcome.ofExpression "-0.0000000000005" = .success "-0.000000000001" := by
  decide +kernel

end DeskCalculator
