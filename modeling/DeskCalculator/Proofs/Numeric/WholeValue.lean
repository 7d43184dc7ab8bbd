import DeskCalculator.Calculation
import DeskCalculator.Proofs.Numeric.ExactSteps
import DeskCalculator.Proofs.Numeric.ShortestDecimal
import DeskCalculator.Proofs.Text.NumeralChar

/-!
# DeskCalculator.Proofs.Numeric.WholeValue

Whole numbers. Their shortest decimals have no places after the point
(`exponent_shortest_of_whole`), so a result that is one is written without a point. Up to `2 ^ 53`
each of them is a value of its own (`exists_rankValue_eq`), so below that none but the number itself
is read as it, and the result is written as an integer (`resultText_eq_toString`). The same holds of
`2 ^ 53`, although it is not the only whole number that is read as it.
-/

namespace DeskCalculator

open Numeric (Decimal)
open Numeric.Binary64 (Finite rankValue rankValue_strictMono shortest unitsPerOne
  unitsPerOne_cast_pos fractionCount)

namespace Numeric

namespace Binary64

/-- The value of a rank whose units are so many ones. -/
theorem rankValue_of_units_eq {rank n : Nat} (h : units rank = n * unitsPerOne) :
    rankValue rank = n := by
  rw [rankValue, h, Nat.cast_mul, mul_div_cancel_right₀ _ unitsPerOne_cast_pos.ne']

/-- A number that a fraction has room for is a value, whatever power of two it is multiplied
with. -/
theorem exists_units_eq_mul_pow (p : Nat) {n : Nat} (hn : n ≤ 2 * fractionCount) :
    ∃ rank, units rank = n * Nat.pow 2 p := by
  have hpow : ∀ p, Nat.pow 2 p = 2 ^ p := fun _ => rfl
  induction p generalizing n with
  | zero => exact ⟨0 * fractionCount + n, units_shift hn (.inl rfl)⟩
  | succ p ih =>
    obtain hsmall | hlarge := Nat.lt_or_ge n fractionCount
    · obtain ⟨rank, hrank⟩ := @ih (2 * n) (by omega)
      refine ⟨rank, ?_⟩
      rw [hrank, hpow, hpow, pow_succ]
      ring
    · exact ⟨_, units_shift hn (.inr hlarge)⟩

theorem exists_unitsPerOne_eq : ∃ p, unitsPerOne = Nat.pow 2 p := by
  unfold unitsPerOne
  exact ⟨_, rfl⟩

/-- Whole numbers up to `2 ^ 53` are values. -/
theorem exists_units_eq {n : Nat} (hn : n ≤ 2 * fractionCount) :
    ∃ rank, units rank = n * unitsPerOne := by
  obtain ⟨p, hp⟩ := exists_unitsPerOne_eq
  rw [hp]
  exact exists_units_eq_mul_pow p hn

theorem exists_rankValue_eq {n : Nat} (hn : n ≤ 2 * fractionCount) :
    ∃ rank, rankValue rank = n := by
  obtain ⟨rank, hrank⟩ := exists_units_eq hn
  exact ⟨rank, rankValue_of_units_eq hrank⟩

/-- A decimal that is a whole number is read as a whole number below `2 ^ 53` only if it is that
number. -/
theorem value_eq_of_nearestRank_eq {d : Decimal} {m n rank : Nat} (hd : d.value = m)
    (hn : n < 2 * fractionCount) (hrank : rankValue rank = n) (h : d.nearestRank = rank) :
    m = n := by
  obtain hm | hm := Nat.lt_or_ge m (2 * fractionCount)
  · obtain ⟨r, hr⟩ := exists_rankValue_eq hm.le
    rw [Decimal.nearestRank_of_value_eq (hd.trans hr.symm)] at h
    rw [h, hrank] at hr
    exact_mod_cast hr.symm
  · -- a number that is not below is not read as one that is
    obtain ⟨r, hr⟩ := exists_rankValue_eq (le_refl (2 * fractionCount))
    have hle : r ≤ rank := by
      rw [← h]
      refine Decimal.le_nearestRank_of_le ?_
      rw [hr, hd]
      exact_mod_cast hm
    have hmono := rankValue_strictMono.monotone hle
    rw [hr, hrank] at hmono
    exact absurd hn (Nat.not_lt.mpr (by exact_mod_cast hmono))

/-- The shortest decimal of a whole number has no places after the point. -/
theorem exponent_shortest_of_whole {rank n : Nat} (hpos : 0 < rank) (hrank : rankValue rank = n) :
    0 ≤ (shortest rank).exponent := by
  have hself : (⟨n, 0⟩ : Decimal).value = rankValue rank := by
    rw [hrank, Decimal.value, zpow_zero, mul_one]
  have hone : (1 : ℚ) ≤ n := by
    have hlt := rankValue_strictMono hpos
    rw [hrank, rankValue_zero] at hlt
    exact_mod_cast hlt
  have hplace : 0 < leadingPlace (units rank) := by
    have hup := rankValue_lt_of_leadingPlace hpos
    generalize leadingPlace (units rank) = place at hup ⊢
    rw [hrank, Decimal.value, Nat.cast_one, one_mul] at hup
    refine (zpow_lt_zpow_iff_right₀ (by norm_num : (1 : ℚ) < 10)).mp ?_
    rw [zpow_zero]
    exact hone.trans_lt hup
  by_cases hmany : 17 ≤ leadingPlace (units rank)
  · have hleast := leadingPlace_sub_le_exponent_shortest hpos
    omega
  · exact le_exponent_shortest hpos (mem_grids_iff.mpr ⟨by omega, by omega⟩)
      (Decimal.nearestRank_of_value_eq hself)

/-- The rank of `2 ^ 53`, and its shortest decimal. -/
theorem units_last_whole : units (1076 * fractionCount) = 2 * fractionCount * unitsPerOne := by
  decide +kernel

theorem shortest_last_whole : shortest (1076 * fractionCount) = ⟨2 * fractionCount, 0⟩ := by
  decide +kernel

/-- The shortest decimal of a whole number up to `2 ^ 53` is that number. -/
theorem shortest_of_whole {rank n : Nat} (hpos : 0 < rank) (hn : n ≤ 2 * fractionCount)
    (hrank : rankValue rank = n) :
    ∃ zeros : Nat, (shortest rank).exponent = zeros ∧
      (shortest rank).coefficient * 10 ^ zeros = n := by
  obtain hlt | rfl := Nat.lt_or_eq_of_le hn
  · obtain ⟨zeros, hzeros⟩ := Int.eq_ofNat_of_zero_le (exponent_shortest_of_whole hpos hrank)
    refine ⟨zeros, hzeros, ?_⟩
    refine value_eq_of_nearestRank_eq ?_ hlt hrank (nearestRank_shortest rank)
    rw [Decimal.value, hzeros, zpow_natCast]
    push_cast
    rfl
  · -- the number after it is read as `2 ^ 53` too, so only the search itself tells them apart
    obtain rfl : rank = 1076 * fractionCount :=
      rankValue_strictMono.injective (hrank.trans (rankValue_of_units_eq units_last_whole).symm)
    rw [shortest_last_whole]
    exact ⟨0, rfl, Nat.mul_one _⟩

end Binary64

/-- Positional notation of a whole number is its numeral. -/
theorem Decimal.positional_of_whole {d : Decimal} {zeros n : Nat} (he : d.exponent = zeros)
    (hn : d.coefficient * 10 ^ zeros = n) : d.positional = Nat.toDigits 10 n := by
  obtain ⟨c, e⟩ := d
  subst he hn
  rfl

theorem Decimal.point_notMem_positional {d : Decimal} (h : 0 ≤ d.exponent) :
    '.' ∉ d.positional := by
  obtain ⟨zeros, hzeros⟩ := Int.eq_ofNat_of_zero_le h
  rw [positional_of_whole hzeros rfl]
  exact fun hmem => absurd (Text.isDigit_of_mem_toDigits '.' hmem) (by decide)

end Numeric

/-- The numeral of an integer, by its sign. -/
theorem toString_eq_of_pos {m : Nat} (hm : 0 < m) (negative : Bool) :
    toString (if negative then -(m : Int) else m) =
      String.ofList (if negative then '-' :: Nat.toDigits 10 m else Nat.toDigits 10 m) := by
  obtain ⟨k, rfl⟩ : ∃ k, m = k + 1 := ⟨m - 1, by omega⟩
  cases negative with
  | false => exact Nat.toString_eq_ofList_toDigits
  | true =>
    have hneg : toString (-((k + 1 : Nat) : Int)) = "-" ++ toString (k + 1) := rfl
    rw [if_pos rfl, if_pos rfl, hneg, Nat.toString_eq_ofList_toDigits]
    apply String.toList_inj.mp
    simp

/-- A number of ones, by its sign and its magnitude. -/
theorem Numeric.Binary64.Finite.eq_of_signedUnits_eq_mul {x : Finite} {n : Int}
    (hx : x.signedUnits = n * unitsPerOne) :
    x.magnitude = n.natAbs * unitsPerOne ∧
      n = if x.negative then -(n.natAbs : Int) else n.natAbs := by
  have hone : (0 : Int) < unitsPerOne := Int.natCast_pos.mpr Numeric.Binary64.unitsPerOne_pos
  constructor
  · have habs := congrArg Int.natAbs hx
    rw [Int.natAbs_mul, Int.natAbs_natCast] at habs
    rw [← habs, Finite.signedUnits]
    split <;> simp
  · rw [Finite.signedUnits] at hx
    cases hneg : x.negative with
    | false =>
      rw [hneg] at hx
      have hn : 0 ≤ n := nonneg_of_mul_nonneg_left (hx ▸ Int.natCast_nonneg _) hone
      exact (Int.natAbs_of_nonneg hn).symm
    | true =>
      rw [hneg, if_pos rfl] at hx
      have hn : n ≤ 0 := by
        by_contra hlt
        have hprod := Int.mul_pos (not_le.mp hlt) hone
        omega
      rw [if_pos rfl]
      omega

/-- A whole result is written without a point. -/
theorem point_notMem_resultText {x : Finite} {n : Int} (hx : x.signedUnits = n * unitsPerOne) :
    '.' ∉ (resultText x).toList := by
  obtain ⟨hunits, -⟩ := Finite.eq_of_signedUnits_eq_mul hx
  by_cases hzero : x.isZero = true
  · rw [resultText, if_pos hzero]
    decide
  have hpos := Finite.rank_pos hzero
  have hplaces := Numeric.Binary64.exponent_shortest_of_whole hpos
    (Numeric.Binary64.rankValue_of_units_eq hunits)
  have hpoint : '.' ∉ (shortest x.rank).positional := Decimal.point_notMem_positional hplaces
  rw [resultText, if_neg hzero, String.toList_ofList]
  split
  · rw [List.mem_cons, not_or]
    exact ⟨by decide, hpoint⟩
  · exact hpoint

/-- A whole result up to `2 ^ 53` is written as an integer. -/
theorem resultText_eq_toString {x : Finite} {n : Int} (hx : x.signedUnits = n * unitsPerOne)
    (hn : n.natAbs ≤ 2 * fractionCount) : resultText x = toString n := by
  obtain ⟨hunits, hsign⟩ := Finite.eq_of_signedUnits_eq_mul hx
  by_cases hzero : x.isZero = true
  · have hnull := Finite.signedUnits_eq_zero_iff.mpr hzero
    rw [hx, Int.mul_eq_zero] at hnull
    have hone : (unitsPerOne : Int) ≠ 0 := by
      exact_mod_cast Numeric.Binary64.unitsPerOne_pos.ne'
    rw [resultText, if_pos hzero, hnull.resolve_right hone]
    rfl
  have hpos := Finite.rank_pos hzero
  have hrank := Numeric.Binary64.rankValue_of_units_eq hunits
  have hmagnitude : 0 < n.natAbs := by
    have hlt := rankValue_strictMono hpos
    rw [hrank, Numeric.Binary64.rankValue_zero] at hlt
    exact_mod_cast hlt
  obtain ⟨zeros, he, hc⟩ := Numeric.Binary64.shortest_of_whole hpos hn hrank
  rw [resultText, if_neg hzero, hsign, toString_eq_of_pos hmagnitude,
    Decimal.positional_of_whole he hc]

theorem resultText_of_whole {x : Finite} {n : Int} (hx : x.signedUnits = n * unitsPerOne) :
    '.' ∉ (resultText x).toList ∧ (n.natAbs < 2 * fractionCount → resultText x = toString n) :=
  ⟨point_notMem_resultText hx, fun hn => resultText_eq_toString hx hn.le⟩

end DeskCalculator
