import Mathlib.Order.Basic
import DeskCalculator.Proofs.Numeric.DecimalValue

/-!
# DeskCalculator.Proofs.Numeric.ShortestDecimal

What the search for a shortest decimal finds.

* **It always has a hit**, at the latest on the grid on which the value has seventeen digits
  (`exists_nearestRank_eq_of_seventeen`), and it stops at the first one (`exists_hit_of_shortest`).
  So the shortest decimal reads back (`nearestRank_shortest`).
* **It is as coarse as any decimal that reads back**, as far as twelve places are concerned: a
  positive value that some decimal with twelve places is rounded to has a shortest decimal with at
  most twelve places (`neg_twelve_le_exponent_shortest`).

The second fact is no law of the search alone. A grid of twelve places may be finer than all that
are tried; then seventeen digits are coarser and suffice. It may also be coarser than all that are
tried; then the value is the one that `10 ^ (-12)` is read as.
-/

namespace DeskCalculator.Numeric

open Decimal (value_le_rankValue_iff)

/-- The coefficient of a positive number that has been trimmed does not end in a zero. -/
theorem Decimal.coefficient_trimmed {c : Nat} (hc : c ≠ 0) (e : Int) :
    (trimmed c e).coefficient % 10 ≠ 0 := by
  fun_induction trimmed c e with
  | case1 c e h ih => exact ih (by omega)
  | case2 c e h => exact fun hmod => h ⟨hc, hmod⟩

/-- Zero is read as zero, whatever its exponent. -/
theorem Decimal.nearestRank_zero (e : Int) : (⟨0, e⟩ : Decimal).nearestRank = 0 := by
  apply nearestRank_of_value_eq
  rw [value, Binary64.rankValue_zero, Nat.cast_zero, zero_mul]

namespace Binary64

/-! ### Hits on one grid -/

/-- The coefficient of the last point of a grid that is not above the value of a rank. -/
def pointBelow (rank : Nat) (exponent : Int) : Nat :=
  units rank * Nat.pow 10 (-exponent).toNat / (unitsPerOne * Nat.pow 10 exponent.toNat)

theorem le_pointBelow_iff {rank k : Nat} {e : Int} :
    k ≤ pointBelow rank e ↔ (⟨k, e⟩ : Decimal).value ≤ rankValue rank := by
  have hpos : 0 < unitsPerOne * Nat.pow 10 e.toNat :=
    Nat.mul_pos unitsPerOne_pos (Nat.pow_pos (by decide))
  rw [pointBelow, Nat.le_div_iff_mul_le hpos, value_le_rankValue_iff, Decimal.numerator,
    Decimal.denominator, Nat.mul_comm unitsPerOne, Nat.mul_assoc]

theorem value_pointBelow_le (rank : Nat) (e : Int) :
    (⟨pointBelow rank e, e⟩ : Decimal).value ≤ rankValue rank :=
  le_pointBelow_iff.mp le_rfl

theorem rankValue_lt_value_pointAbove (rank : Nat) (e : Int) :
    rankValue rank < (⟨pointBelow rank e + 1, e⟩ : Decimal).value :=
  not_le.mp (le_pointBelow_iff.not.mp (Nat.not_succ_le_self _))

theorem onGrid?_eq (rank : Nat) (e : Int) :
    onGrid? rank e = chooseHit (Decimal.nearestRank ⟨pointBelow rank e, e⟩ == rank)
      (Decimal.nearestRank ⟨pointBelow rank e + 1, e⟩ == rank) (pointBelow rank e)
      (roundHalfEven (units rank * Nat.pow 10 (-e).toNat) (unitsPerOne * Nat.pow 10 e.toNat)) :=
  rfl

theorem chooseHit_eq_some {below above : Bool} {point closer c : Nat}
    (hcloser : closer = point ∨ closer = point + 1)
    (h : chooseHit below above point closer = some c) :
    below = true ∧ c = point ∨ above = true ∧ c = point + 1 := by
  cases below <;> cases above <;> simp_all [chooseHit]

theorem isSome_chooseHit (below above : Bool) (point closer : Nat) :
    (chooseHit below above point closer).isSome = (below || above) := by
  cases below <;> cases above <;> rfl

/-- A hit on a grid reads back. -/
theorem nearestRank_of_onGrid? {rank c : Nat} {e : Int} (h : onGrid? rank e = some c) :
    (⟨c, e⟩ : Decimal).nearestRank = rank := by
  rw [onGrid?_eq] at h
  rcases chooseHit_eq_some (roundHalfEven_eq_or _ _) h with ⟨hreads, rfl⟩ | ⟨hreads, rfl⟩
  · exact beq_iff_eq.mp hreads
  · exact beq_iff_eq.mp hreads

/-- If a point of a grid that is not above the value reads back, so does the last such point: it
lies between the two. -/
theorem nearestRank_pointBelow {rank k : Nat} {e : Int} (h : (⟨k, e⟩ : Decimal).nearestRank = rank)
    (hk : k ≤ pointBelow rank e) : (⟨pointBelow rank e, e⟩ : Decimal).nearestRank = rank :=
  Nat.le_antisymm (Decimal.nearestRank_le_of_le (value_pointBelow_le rank e))
    (h.ge.trans (Decimal.nearestRank_le_nearestRank (Decimal.value_mono hk e)))

/-- If a point of a grid above the value reads back, so does the first such point. -/
theorem nearestRank_pointAbove {rank k : Nat} {e : Int} (h : (⟨k, e⟩ : Decimal).nearestRank = rank)
    (hk : pointBelow rank e < k) : (⟨pointBelow rank e + 1, e⟩ : Decimal).nearestRank = rank :=
  Nat.le_antisymm ((Decimal.nearestRank_le_nearestRank (Decimal.value_mono hk e)).trans h.le)
    (Decimal.le_nearestRank_of_le (rankValue_lt_value_pointAbove rank e).le)

/-- If a point of a grid reads back, the grid has a hit. -/
theorem isSome_onGrid? {rank k : Nat} {e : Int} (h : (⟨k, e⟩ : Decimal).nearestRank = rank) :
    (onGrid? rank e).isSome = true := by
  rw [onGrid?_eq, isSome_chooseHit, Bool.or_eq_true, beq_iff_eq, beq_iff_eq]
  obtain hk | hk := Nat.lt_or_ge (pointBelow rank e) k
  · exact .inr (nearestRank_pointAbove h hk)
  · exact .inl (nearestRank_pointBelow h hk)

/-! ### The leading digit -/

/-- A value has its leading digit in the leading place. -/
theorem value_le_of_leadingPlace {rank : Nat} (hpos : 0 < rank) :
    (⟨1, leadingPlace (units rank) - 1⟩ : Decimal).value ≤ rankValue rank := by
  rw [value_le_rankValue_iff, Decimal.numerator, Decimal.denominator, leadingPlace]
  split
  · rename_i hone
    have hquot : 0 < units rank / unitsPerOne := (Nat.one_le_div_iff unitsPerOne_pos).mpr hone
    have hcount := digitCount_pos (units rank / unitsPerOne)
    have hplace : ((digitCount (units rank / unitsPerOne) : Int) - 1).toNat =
        digitCount (units rank / unitsPerOne) - 1 := by omega
    have hpoint : (-((digitCount (units rank / unitsPerOne) : Int) - 1)).toNat = 0 := by omega
    rw [hplace, hpoint]
    simpa using (Nat.le_div_iff_mul_le unitsPerOne_pos).mp (pow_digitCount_le hquot)
  · have hplace : (1 - (digitCount ((unitsPerOne - 1) / units rank) : Int) - 1).toNat = 0 := by
      omega
    have hpoint : (-(1 - (digitCount ((unitsPerOne - 1) / units rank) : Int) - 1)).toNat =
        digitCount ((unitsPerOne - 1) / units rank) := by omega
    have hdigits := (Nat.div_lt_iff_lt_mul (units_pos hpos)).mp
      (lt_pow_digitCount ((unitsPerOne - 1) / units rank))
    rw [hplace, hpoint]
    show 1 * 1 * unitsPerOne ≤ units rank * 10 ^ digitCount ((unitsPerOne - 1) / units rank)
    rw [Nat.mul_comm (units rank)]
    omega

/-- A value has no digit before the leading place. -/
theorem rankValue_lt_of_leadingPlace {rank : Nat} (hpos : 0 < rank) :
    rankValue rank < (⟨1, leadingPlace (units rank)⟩ : Decimal).value := by
  rw [← not_le, value_le_rankValue_iff, not_le, Decimal.numerator, Decimal.denominator,
    leadingPlace]
  split
  · have hdigits := (Nat.div_lt_iff_lt_mul unitsPerOne_pos).mp
      (lt_pow_digitCount (units rank / unitsPerOne))
    simpa using hdigits
  · rename_i hone
    have hquot : 0 < (unitsPerOne - 1) / units rank := by
      have hunits := units_pos hpos
      rw [Nat.div_pos_iff]
      omega
    have hcount := digitCount_pos ((unitsPerOne - 1) / units rank)
    have hplace : (1 - (digitCount ((unitsPerOne - 1) / units rank) : Int)).toNat = 0 := by omega
    have hpoint : (-(1 - (digitCount ((unitsPerOne - 1) / units rank) : Int))).toNat =
        digitCount ((unitsPerOne - 1) / units rank) - 1 := by omega
    have hdigits := (Nat.le_div_iff_mul_le (units_pos hpos)).mp (pow_digitCount_le hquot)
    have hunit := unitsPerOne_pos
    rw [hplace, hpoint]
    show units rank * 10 ^ (digitCount ((unitsPerOne - 1) / units rank) - 1) < 1 * 1 * unitsPerOne
    rw [Nat.mul_comm]
    omega

/-! ### Seventeen digits suffice -/

/-- A value is at most `2 ^ 53` gaps away from zero. -/
theorem units_le_spacing (k : Nat) : units (k + 1) ≤ 2 * fractionCount * spacing k := by
  rw [units_succ]
  rcases rank_cases k with hlt | ⟨row, m, hm, rfl⟩
  · rw [units_of_lt hlt, spacing_of_lt hlt]
    omega
  · rw [units_row row hm, spacing_row row hm, ← Nat.succ_mul]
    exact Nat.mul_le_mul_right _ (by omega)

/-- On a grid that gives a value seventeen digits, the points are closer together than the binary
numbers before the value. -/
theorem gridStep_lt {k : Nat} {e : Int}
    (hfine : (⟨10 ^ 16, e⟩ : Decimal).value ≤ rankValue (k + 1)) :
    Nat.pow 10 e.toNat * unitsPerOne < Nat.pow 10 (-e).toNat * spacing k := by
  have hscaled := value_le_rankValue_iff.mp hfine
  rw [Decimal.numerator, Decimal.denominator, Nat.mul_assoc] at hscaled
  have hp : 0 < Nat.pow 10 (-e).toNat := Nat.pow_pos (by decide)
  generalize Nat.pow 10 e.toNat * unitsPerOne = step at hscaled ⊢
  generalize Nat.pow 10 (-e).toNat = p at hscaled hp ⊢
  have hprod : 0 < p * spacing k := Nat.mul_pos hp (spacing_pos k)
  have h53 : 2 * fractionCount = 9007199254740992 := rfl
  have hbound : 10 ^ 16 * step ≤ 9007199254740992 * (p * spacing k) := by
    calc 10 ^ 16 * step
      _ ≤ units (k + 1) * p := hscaled
      _ ≤ 2 * fractionCount * spacing k * p := Nat.mul_le_mul_right p (units_le_spacing k)
      _ = 9007199254740992 * (p * spacing k) := by
          rw [h53]
          ring
  omega

/-- The grid on which a value has seventeen digits has a point that reads back: the point closest to
the value. -/
theorem exists_nearestRank_eq_of_seventeen {rank : Nat} (hpos : 0 < rank) :
    ∃ k, (⟨k, leadingPlace (units rank) - 17⟩ : Decimal).nearestRank = rank := by
  obtain ⟨j, rfl⟩ : ∃ j, rank = j + 1 := ⟨rank - 1, by omega⟩
  have hfine : (⟨10 ^ 16, leadingPlace (units (j + 1)) - 17⟩ : Decimal).value ≤
      rankValue (j + 1) := by
    have hshift := Decimal.value_shift 1 16 (leadingPlace (units (j + 1)) - 17)
    have hexp : leadingPlace (units (j + 1)) - 17 + (16 : Nat) =
        leadingPlace (units (j + 1)) - 1 := by omega
    rw [Nat.one_mul, hexp] at hshift
    rw [hshift]
    exact value_le_of_leadingPlace hpos
  generalize leadingPlace (units (j + 1)) - 17 = e at hfine ⊢
  have hstep : 0 < Nat.pow 10 e.toNat * unitsPerOne :=
    Nat.mul_pos (Nat.pow_pos (by decide)) unitsPerOne_pos
  obtain ⟨hlow, hup, -⟩ := roundHalfEven_spec (Nat.pow 10 (-e).toNat * units (j + 1)) hstep
  generalize hk : roundHalfEven _ _ = k at hlow hup
  refine ⟨k, ?_⟩
  simp only [Decimal.nearestRank, Decimal.numerator, Decimal.denominator, Nat.mul_assoc]
  exact nearestRank_eq_of_close (Nat.pow_pos (by decide)) (gridStep_lt hfine) hlow hup

/-! ### The search -/

theorem pairwise_grids (n : Nat) : (grids n).Pairwise fun a b => b < a := by
  rw [grids, List.pairwise_map]
  refine List.pairwise_lt_range.imp ?_
  intro a b hab
  omega

theorem mem_grids_iff {n : Nat} {e : Int} :
    e ∈ grids n ↔ e ≤ leadingPlace n - 1 ∧ leadingPlace n - 17 ≤ e := by
  simp only [grids, List.mem_map, List.mem_range]
  constructor
  · rintro ⟨more, hmore, rfl⟩
    omega
  · intro h
    exact ⟨(leadingPlace n - 1 - e).toNat, by omega, by omega⟩

/-- A search in descending order finds the greatest member with a result. -/
theorem exists_greatest_of_findSome? {β : Type} {f : Int → Option β} {es : List Int}
    (hes : es.Pairwise fun a b => b < a) {e : Int} (he : e ∈ es) (h : (f e).isSome = true) :
    ∃ e' ∈ es, ∃ b, f e' = some b ∧ es.findSome? f = some b ∧ ∀ a ∈ es, e' < a → f a = none := by
  have hsome : (es.findSome? f).isSome = true := List.findSome?_isSome_iff.mpr ⟨e, he, h⟩
  obtain ⟨b, hb⟩ := Option.isSome_iff_exists.mp hsome
  obtain ⟨before, e', after, rfl, hhit, hnone⟩ := List.findSome?_eq_some_iff.mp hb
  refine ⟨e', by simp, b, hhit, hb, fun a ha hlt => ?_⟩
  rw [List.pairwise_append, List.pairwise_cons] at hes
  obtain ha | rfl | ha : a ∈ before ∨ a = e' ∨ a ∈ after := by simpa using ha
  · exact hnone a ha
  · exact absurd hlt (lt_irrefl a)
  · exact absurd (hes.2.1.1 a ha) (not_lt.mpr hlt.le)

/-- **The search.** The shortest decimal of a positive value is a hit on a grid that is tried,
without the zeros at its end, and no coarser grid that is tried has one. -/
theorem exists_hit_of_shortest {rank : Nat} (hpos : 0 < rank) :
    ∃ c, ∃ e ∈ grids (units rank), shortest rank = Decimal.trimmed c e ∧
      onGrid? rank e = some c ∧ ∀ e' ∈ grids (units rank), e < e' → onGrid? rank e' = none := by
  obtain ⟨k, hk⟩ := exists_nearestRank_eq_of_seventeen hpos
  have hlast : leadingPlace (units rank) - 17 ∈ grids (units rank) :=
    mem_grids_iff.mpr ⟨by omega, le_rfl⟩
  obtain ⟨e, he, d, hd, hfind, hnone⟩ := exists_greatest_of_findSome? (pairwise_grids _)
    (f := fun e => (onGrid? rank e).map fun c => Decimal.trimmed c e) hlast (by
      rw [Option.isSome_map]
      exact isSome_onGrid? hk)
  obtain ⟨c, hc, rfl⟩ := Option.map_eq_some_iff.mp hd
  refine ⟨c, e, he, ?_, hc, fun e' he' hlt => Option.map_eq_none_iff.mp (hnone e' he' hlt)⟩
  rw [shortest, if_neg hpos.ne', hfind, Option.getD_some]

/-- The shortest decimal reads back. -/
theorem nearestRank_shortest (rank : Nat) : (shortest rank).nearestRank = rank := by
  obtain rfl | hpos := Nat.eq_zero_or_pos rank
  · exact Decimal.nearestRank_zero 0
  · obtain ⟨c, e, -, heq, hhit, -⟩ := exists_hit_of_shortest hpos
    rw [heq, Decimal.nearestRank_congr (Decimal.value_trimmed c e)]
    exact nearestRank_of_onGrid? hhit

/-- Shortest decimals are in the order of the values: they read back. -/
theorem value_shortest_mono {a b : Nat} (h : a ≤ b) :
    (shortest a).value ≤ (shortest b).value := by
  by_contra hlt
  have hrank := Decimal.nearestRank_le_nearestRank (not_le.mp hlt).le
  rw [nearestRank_shortest, nearestRank_shortest] at hrank
  exact hlt (by rw [Nat.le_antisymm h hrank])

/-- The shortest decimal of a positive value has no zeros at the end of its coefficient. -/
theorem coefficient_shortest {rank : Nat} (hpos : 0 < rank) :
    (shortest rank).coefficient % 10 ≠ 0 := by
  obtain ⟨c, e, -, heq, hhit, -⟩ := exists_hit_of_shortest hpos
  have hreads := nearestRank_of_onGrid? hhit
  rw [heq]
  refine Decimal.coefficient_trimmed ?_ e
  rintro rfl
  rw [Decimal.nearestRank_zero] at hreads
  omega

/-- A grid that is tried and has a hit bounds the places of the shortest decimal. -/
theorem le_exponent_shortest {rank k : Nat} {e : Int} (hpos : 0 < rank)
    (he : e ∈ grids (units rank)) (h : (⟨k, e⟩ : Decimal).nearestRank = rank) :
    e ≤ (shortest rank).exponent := by
  obtain ⟨c, e', -, heq, -, hnone⟩ := exists_hit_of_shortest hpos
  have hle : e ≤ e' := by
    by_contra hlt
    have hhit := isSome_onGrid? h
    rw [hnone e he (not_le.mp hlt)] at hhit
    exact absurd hhit (by simp)
  rw [heq]
  exact hle.trans (Decimal.le_exponent_trimmed c e')

/-- The shortest decimal has no more than seventeen digits. -/
theorem leadingPlace_sub_le_exponent_shortest {rank : Nat} (hpos : 0 < rank) :
    leadingPlace (units rank) - 17 ≤ (shortest rank).exponent := by
  obtain ⟨k, hk⟩ := exists_nearestRank_eq_of_seventeen hpos
  exact le_exponent_shortest hpos (mem_grids_iff.mpr ⟨by omega, le_rfl⟩) hk

/-- **Twelve places stay twelve places.** If a decimal with twelve places is read as a positive
value, then the shortest decimal of that value has at most twelve places. -/
theorem neg_twelve_le_exponent_shortest {rank k : Nat} (hpos : 0 < rank)
    (h : (⟨k, -12⟩ : Decimal).nearestRank = rank) : -12 ≤ (shortest rank).exponent := by
  by_cases hcoarse : leadingPlace (units rank) - 1 < -12
  · -- the value is below `10 ^ (-12)`, and some positive multiple of that is read as it
    have hkpos : 1 ≤ k := by
      by_contra hzero
      obtain rfl : k = 0 := by omega
      rw [Decimal.nearestRank_zero] at h
      omega
    have hmin : (⟨1, -12⟩ : Decimal).nearestRank = rank := by
      refine Nat.le_antisymm ?_ ?_
      · rw [← h]
        exact Decimal.nearestRank_le_nearestRank (Decimal.value_mono hkpos (-12))
      · refine Decimal.le_nearestRank_of_le ((rankValue_lt_of_leadingPlace hpos).le.trans ?_)
        simp only [Decimal.value, Nat.cast_one, one_mul]
        exact ten_zpow_mono (by omega)
    rw [← hmin]
    decide +kernel
  by_cases hfine : -12 < leadingPlace (units rank) - 17
  · -- seventeen digits are coarser than twelve places, and enough
    exact hfine.le.trans (leadingPlace_sub_le_exponent_shortest hpos)
  · exact le_exponent_shortest hpos (mem_grids_iff.mpr ⟨by omega, by omega⟩) h

end Binary64

end DeskCalculator.Numeric
