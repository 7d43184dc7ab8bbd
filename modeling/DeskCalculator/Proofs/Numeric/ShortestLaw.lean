import Mathlib.Algebra.Order.Group.Abs
import Mathlib.Tactic.Linarith
import DeskCalculator.Proofs.Numeric.ShortestDecimal

/-!
# DeskCalculator.Proofs.Numeric.ShortestLaw

The shortest decimal is the shortest: no decimal with fewer digits reads back, none with as many
digits is closer to the value, and of two that are equally close it is the even one.

* **Digits and grids.** A decimal with `m` digits need not lie on the grid on which the value has
  `m` digits, but if it reads back, some point of that grid does, and is at least as close
  (`exists_on_grid`).
* **One grid.** On its grid a hit is the closest of the points that read back
  (`onGrid?_closest`).

Main statement: `isShortest_shortest`, for every rank.
-/

namespace DeskCalculator.Numeric

/-! ### Distances -/

/-- The distance of a multiple from a number, in units. -/
theorem abs_mul_sub {unit : ℚ} (hunit : 0 < unit) (k q : ℚ) :
    |k * unit - q| = |k - q / unit| * unit := by
  conv_rhs => rw [← abs_of_pos hunit, ← abs_mul, sub_mul, abs_of_pos hunit,
    div_mul_cancel₀ _ hunit.ne']

/-- Any other number is half a step away from a number that is rounded, or farther. -/
theorem half_le_abs_sub {r k : ℤ} {t : ℚ} (h : |(r : ℚ) - t| ≤ 1 / 2) (hk : k ≠ r) :
    1 / 2 ≤ |(k : ℚ) - t| := by
  have hone : (1 : ℚ) ≤ |(k : ℚ) - r| := by exact_mod_cast Int.one_le_abs (sub_ne_zero.mpr hk)
  have hsum := abs_sub_le (k : ℚ) t r
  rw [abs_sub_comm t] at hsum
  linarith

/-- The rounded quotient is at most half a step away, and even if it is half a step away. -/
theorem abs_roundHalfEven_sub_le (n : Nat) {d : Nat} (hd : 0 < d) :
    |(roundHalfEven n d : ℚ) - n / d| ≤ 1 / 2 ∧
      (|(roundHalfEven n d : ℚ) - n / d| = 1 / 2 → roundHalfEven n d % 2 = 0) := by
  obtain ⟨hup, hlow, heven⟩ := roundHalfEven_spec n hd
  generalize roundHalfEven n d = r at hup hlow heven ⊢
  have hd' : (0 : ℚ) < d := Nat.cast_pos.mpr hd
  obtain ⟨t, ht⟩ : ∃ t : ℚ, t = n / d := ⟨_, rfl⟩
  have hn : (n : ℚ) = t * d := by rw [ht, div_mul_cancel₀ _ hd'.ne']
  rw [← ht]
  constructor
  · have hup' : (2 : ℚ) * n ≤ 2 * (r * d) + d := by exact_mod_cast hup
    have hlow' : (2 : ℚ) * (r * d) ≤ 2 * n + d := by exact_mod_cast hlow
    have habove : 2 * t ≤ 2 * r + 1 := le_of_mul_le_mul_right (by linarith) hd'
    have hbelow : 2 * (r : ℚ) ≤ 2 * t + 1 := le_of_mul_le_mul_right (by linarith) hd'
    rw [abs_le]
    constructor <;> linarith
  · intro hhalf
    obtain h | h := (abs_eq (by norm_num)).mp hhalf
    · have hr : (r : ℚ) = t + 1 / 2 := by linarith
      have htie : (2 : ℚ) * (r * d) = 2 * n + d := by
        rw [hr, hn]
        ring
      exact heven (.inr (by exact_mod_cast htie))
    · have hr : (r : ℚ) = t - 1 / 2 := by linarith
      have htie : (2 : ℚ) * n = 2 * (r * d) + d := by
        rw [hr, hn]
        ring
      exact heven (.inl (by exact_mod_cast htie))

/-- The rounded quotient is closer than any other number, or as close and even. -/
theorem roundHalfEven_closest (n : Nat) {d : Nat} (hd : 0 < d) {k : Nat}
    (hk : k ≠ roundHalfEven n d) :
    |(roundHalfEven n d : ℚ) - n / d| ≤ |(k : ℚ) - n / d| ∧
      (|(roundHalfEven n d : ℚ) - n / d| = |(k : ℚ) - n / d| → roundHalfEven n d % 2 = 0) := by
  obtain ⟨hle, heven⟩ := abs_roundHalfEven_sub_le n hd
  have hhalf := @half_le_abs_sub _ (k : Int) _ hle (by exact_mod_cast hk)
  exact ⟨hle.trans hhalf, fun heq => heven (le_antisymm hle (hhalf.trans_eq heq.symm))⟩

namespace Binary64

/-- A decimal that reads back, has the fewest digits of all that do, and is the closest of these. -/
structure IsShortest (rank : Nat) (d : Decimal) : Prop where
  readsBack : d.nearestRank = rank
  fewest : ∀ d' : Decimal, d'.nearestRank = rank →
    digitCount d.coefficient ≤ digitCount d'.coefficient
  closest : ∀ d' : Decimal, d'.nearestRank = rank →
    digitCount d'.coefficient = digitCount d.coefficient →
    |d.value - rankValue rank| ≤ |d'.value - rankValue rank|
  /-- A tie goes to the even last digit. -/
  even_of_tie : ∀ k, (⟨k, d.exponent⟩ : Decimal).nearestRank = rank → k ≠ d.coefficient →
    |d.value - rankValue rank| = |(⟨k, d.exponent⟩ : Decimal).value - rankValue rank| →
    d.coefficient % 2 = 0

/-! ### Digits -/

theorem digitCount_eq_of_between {n k : Nat} (hlow : 10 ^ k ≤ n) (hup : n < 10 ^ (k + 1)) :
    digitCount n = k + 1 := by
  refine Nat.le_antisymm ((digitCount_le_iff (Nat.succ_pos k)).mpr hup) ?_
  by_contra hlt
  obtain rfl | hpos := Nat.eq_zero_or_pos k
  · have hcount := digitCount_pos n
    omega
  · have hfew := (digitCount_le_iff hpos).mp (Nat.le_of_lt_succ (Nat.lt_of_not_le hlt))
    omega

/-- A decimal that reads back has a counterpart on the grid on which the value has as many digits:
the decimal itself, or else the least number with these digits. -/
theorem exists_on_grid {rank : Nat} (hpos : 0 < rank) {d : Decimal} (hd : d.nearestRank = rank) :
    ∃ k, (⟨k, leadingPlace (units rank) - digitCount d.coefficient⟩ : Decimal).nearestRank = rank ∧
      |(⟨k, leadingPlace (units rank) - digitCount d.coefficient⟩ : Decimal).value -
        rankValue rank| ≤ |d.value - rankValue rank| := by
  obtain ⟨c, e⟩ := d
  have hcount := digitCount_pos c
  have hlead := value_le_of_leadingPlace hpos
  generalize leadingPlace (units rank) = place at hlead ⊢
  dsimp only
  generalize hdigits : digitCount c = digits at hcount ⊢
  obtain hcoarse | hfine := le_or_gt (place - digits) e
  · -- a coarser decimal lies on the grid
    have hvalue := Decimal.value_shift c (e - (place - digits)).toNat (place - digits)
    have hexp : place - digits + ((e - (place - digits)).toNat : Int) = e := by omega
    rw [hexp] at hvalue
    exact ⟨_, by rw [Decimal.nearestRank_congr hvalue, hd], by rw [hvalue]⟩
  · -- a finer one is below the leading place of the value
    have hvalue := Decimal.value_shift 1 (digits - 1) (place - digits)
    have hexp : place - digits + ((digits - 1 : Nat) : Int) = place - 1 := by omega
    rw [Nat.one_mul, hexp] at hvalue
    have hbelow : (⟨c, e⟩ : Decimal).value ≤ (⟨1, place - 1⟩ : Decimal).value := by
      have hlt : (c : ℚ) ≤ 10 ^ digits := by
        rw [← hdigits]
        exact_mod_cast (lt_pow_digitCount c).le
      calc (⟨c, e⟩ : Decimal).value
        _ ≤ 10 ^ digits * 10 ^ e := mul_le_mul_of_nonneg_right hlt (ten_zpow_pos e).le
        _ = 10 ^ ((digits : Int) + e) := by rw [zpow_add₀ (by norm_num), zpow_natCast]
        _ ≤ 10 ^ (place - 1) := ten_zpow_mono (by omega)
        _ = (⟨1, place - 1⟩ : Decimal).value := by simp [Decimal.value]
    refine ⟨10 ^ (digits - 1), ?_, ?_⟩
    · rw [Decimal.nearestRank_congr hvalue]
      refine Nat.le_antisymm (Decimal.nearestRank_le_of_le hlead) ?_
      exact hd.ge.trans (Decimal.nearestRank_le_nearestRank hbelow)
    · rw [hvalue, abs_of_nonpos (by linarith), abs_of_nonpos (by linarith)]
      linarith

/-! ### The closest point of a grid -/

/-- The distance of a point of a grid from a value, in steps of the grid. -/
theorem abs_value_sub_rankValue (rank k : Nat) (e : Int) :
    |(⟨k, e⟩ : Decimal).value - rankValue rank| = |(k : ℚ) - rankValue rank / 10 ^ e| * 10 ^ e :=
  abs_mul_sub (ten_zpow_pos e) k (rankValue rank)

/-- The points of a grid above a number are farther the greater they are. -/
theorem abs_value_sub_lt {a b : Nat} {e : Int} {q : ℚ} (ha : q ≤ (⟨a, e⟩ : Decimal).value)
    (hab : a < b) : |(⟨a, e⟩ : Decimal).value - q| < |(⟨b, e⟩ : Decimal).value - q| := by
  have hlt : (⟨a, e⟩ : Decimal).value < (⟨b, e⟩ : Decimal).value :=
    mul_lt_mul_of_pos_right (Nat.cast_lt.mpr hab) (ten_zpow_pos e)
  rw [abs_of_nonneg (by linarith), abs_of_nonneg (by linarith)]
  linarith

/-- The value in steps of a grid, as the quotient that is rounded. -/
theorem rankValue_div_eq (rank : Nat) (e : Int) :
    rankValue rank / 10 ^ e =
      ((units rank * Nat.pow 10 (-e).toNat : Nat) : ℚ) /
        ((unitsPerOne * Nat.pow 10 e.toNat : Nat) : ℚ) := by
  have hpow : ∀ n, Nat.pow 10 n = 10 ^ n := fun _ => rfl
  rw [rankValue, ten_zpow_eq, hpow, hpow, div_div_div_eq]
  push_cast
  rfl

/-- A hit is closer to the value than any other point of its grid that reads back, or as close and
even. -/
theorem onGrid?_closest {rank c k : Nat} {e : Int} (h : onGrid? rank e = some c)
    (hk : (⟨k, e⟩ : Decimal).nearestRank = rank) (hne : k ≠ c) :
    |(c : ℚ) - rankValue rank / 10 ^ e| ≤ |(k : ℚ) - rankValue rank / 10 ^ e| ∧
      (|(c : ℚ) - rankValue rank / 10 ^ e| = |(k : ℚ) - rankValue rank / 10 ^ e| → c % 2 = 0) := by
  have hlow : (pointBelow rank e : ℚ) ≤ rankValue rank / 10 ^ e :=
    (le_div_iff₀ (ten_zpow_pos e)).mpr (value_pointBelow_le rank e)
  have hup : rankValue rank / 10 ^ e < (pointBelow rank e + 1 : Nat) :=
    (div_lt_iff₀ (ten_zpow_pos e)).mpr (rankValue_lt_value_pointAbove rank e)
  rw [onGrid?_eq] at h
  cases hbelow : (⟨pointBelow rank e, e⟩ : Decimal).nearestRank == rank with
  | true =>
    cases habove : (⟨pointBelow rank e + 1, e⟩ : Decimal).nearestRank == rank with
    | true =>
      -- both neighbours read back, and the closer one is closer than any other point
      rw [hbelow, habove] at h
      obtain rfl := Option.some.inj h
      rw [rankValue_div_eq]
      exact roundHalfEven_closest _ (Nat.mul_pos unitsPerOne_pos (Nat.pow_pos (by decide))) hne
    | false =>
      rw [hbelow, habove] at h
      obtain rfl := Option.some.inj h
      -- another point that reads back is farther below
      have hlt : k < pointBelow rank e := by
        refine Nat.lt_of_le_of_ne (Nat.le_of_not_lt fun hgt => ?_) hne
        rw [nearestRank_pointAbove hk hgt, beq_self_eq_true] at habove
        exact absurd habove (by simp)
      have hlt' : (k : ℚ) < pointBelow rank e := Nat.cast_lt.mpr hlt
      rw [abs_of_nonpos (by linarith), abs_of_nonpos (by linarith)]
      exact ⟨by linarith, fun heq => absurd heq (by linarith)⟩
  | false =>
    cases habove : (⟨pointBelow rank e + 1, e⟩ : Decimal).nearestRank == rank with
    | true =>
      rw [hbelow, habove] at h
      obtain rfl := Option.some.inj h
      -- another point that reads back is farther above
      have hlt : pointBelow rank e + 1 < k := by
        refine Nat.lt_of_le_of_ne (Nat.lt_of_not_le fun hle => ?_) hne.symm
        rw [nearestRank_pointBelow hk hle, beq_self_eq_true] at hbelow
        exact absurd hbelow (by simp)
      have hlt' : ((pointBelow rank e + 1 : Nat) : ℚ) < k := Nat.cast_lt.mpr hlt
      rw [abs_of_nonneg (by linarith), abs_of_nonneg (by linarith)]
      exact ⟨by linarith, fun heq => absurd heq (by linarith)⟩
    | false =>
      rw [hbelow, habove] at h
      exact absurd h (by simp [chooseHit])

/-! ### The first grid with a hit -/

/-- A hit has as many digits as the grid gives the value, or is the least number with one more. -/
theorem hit_between {rank c digits : Nat} (hpos : 0 < rank)
    (h : onGrid? rank (leadingPlace (units rank) - (digits + 1 : Nat)) = some c) :
    10 ^ digits ≤ c ∧ c ≤ 10 ^ (digits + 1) := by
  have hlow := value_le_of_leadingPlace hpos
  have hup := rankValue_lt_of_leadingPlace hpos
  generalize leadingPlace (units rank) = place at h hlow hup
  have hleast := Decimal.value_shift 1 digits (place - (digits + 1 : Nat))
  have hmost := Decimal.value_shift 1 (digits + 1) (place - (digits + 1 : Nat))
  have hexp : place - (digits + 1 : Nat) + (digits : Int) = place - 1 := by omega
  have hexp' : place - (digits + 1 : Nat) + ((digits + 1 : Nat) : Int) = place := by omega
  rw [Nat.one_mul, hexp] at hleast
  rw [Nat.one_mul, hexp'] at hmost
  have hbelow := le_pointBelow_iff.mpr (hleast.trans_le hlow)
  have habove := Nat.lt_of_not_le (le_pointBelow_iff.not.mpr (not_le.mpr (hup.trans_eq hmost.symm)))
  rw [onGrid?_eq] at h
  obtain ⟨-, rfl⟩ | ⟨-, rfl⟩ := chooseHit_eq_some (roundHalfEven_eq_or _ _) h
  · exact ⟨hbelow, habove.le⟩
  · exact ⟨hbelow.trans (Nat.le_succ _), habove⟩

/-- The shortest decimal of a positive value is the hit of the first grid that has one, with as many
digits as the grid gives the value. Only ten on the coarsest grid is written on the next one. -/
theorem shortest_cases {rank : Nat} (hpos : 0 < rank) : ∃ digits c : Nat,
    onGrid? rank (leadingPlace (units rank) - (digits + 1 : Nat)) = some c ∧
      (∀ fewer < digits, onGrid? rank (leadingPlace (units rank) - (fewer + 1 : Nat)) = none) ∧
      (shortest rank = ⟨c, leadingPlace (units rank) - (digits + 1 : Nat)⟩ ∧
          digitCount c = digits + 1 ∨
        shortest rank = ⟨1, leadingPlace (units rank)⟩ ∧ digits = 0 ∧ c = 10) := by
  obtain ⟨c, e, he, heq, hhit, hnone⟩ := exists_hit_of_shortest hpos
  rw [mem_grids_iff] at he
  obtain ⟨digits, hplace⟩ : ∃ digits : Nat, e = leadingPlace (units rank) - (digits + 1 : Nat) :=
    ⟨(leadingPlace (units rank) - 1 - e).toNat, by omega⟩
  rw [hplace] at heq hhit hnone
  have hcoarser : ∀ fewer < digits,
      onGrid? rank (leadingPlace (units rank) - (fewer + 1 : Nat)) = none :=
    fun fewer hfewer => hnone _ (mem_grids_iff.mpr ⟨by omega, by omega⟩) (by omega)
  obtain ⟨hlow, hup⟩ := hit_between hpos hhit
  refine ⟨digits, c, hhit, hcoarser, ?_⟩
  by_cases hzero : c % 10 = 0
  · -- without its last zero the hit lies on the next grid, so that has not been tried
    have hdigits : digits = 0 := by
      by_contra hmore
      have hshift := Decimal.value_shift (c / 10) 1 (leadingPlace (units rank) - (digits + 1 : Nat))
      have hc : c / 10 * 10 ^ 1 = c := by omega
      have hexp : leadingPlace (units rank) - (digits + 1 : Nat) + (1 : Nat) =
          leadingPlace (units rank) - ((digits - 1 : Nat) + 1 : Nat) := by omega
      rw [hc, hexp] at hshift
      have hreads := nearestRank_of_onGrid? hhit
      rw [Decimal.nearestRank_congr hshift] at hreads
      have hsome := isSome_onGrid? hreads
      rw [hcoarser (digits - 1) (by omega)] at hsome
      exact absurd hsome (by simp)
    subst hdigits
    obtain rfl : c = 10 := by omega
    refine .inr ⟨?_, rfl, rfl⟩
    rw [heq, Decimal.trimmed, if_pos (by decide), Decimal.trimmed, if_neg (by decide)]
    simp
  · have hne : c ≠ 10 ^ (digits + 1) := by
      rintro rfl
      exact hzero (by rw [pow_succ, Nat.mul_mod_left])
    refine .inl ⟨?_, digitCount_eq_of_between hlow (Nat.lt_of_le_of_ne hup hne)⟩
    rw [heq, Decimal.trimmed, if_neg fun h => hzero h.2]

/-- A decimal that reads back has no fewer digits than the first grid with a hit. -/
theorem lt_digitCount_of_nearestRank {rank digits : Nat} (hpos : 0 < rank)
    (hcoarser : ∀ fewer < digits,
      onGrid? rank (leadingPlace (units rank) - (fewer + 1 : Nat)) = none)
    {d : Decimal} (hd : d.nearestRank = rank) : digits < digitCount d.coefficient := by
  obtain ⟨k, hk, -⟩ := exists_on_grid hpos hd
  have hone := digitCount_pos d.coefficient
  obtain ⟨fewer, hfewer⟩ : ∃ fewer, digitCount d.coefficient = fewer + 1 :=
    ⟨digitCount d.coefficient - 1, by omega⟩
  rw [hfewer] at hk ⊢
  by_contra hfew
  have hsome := isSome_onGrid? hk
  rw [hcoarser fewer (by omega)] at hsome
  exact absurd hsome (by simp)

/-- No decimal with as many digits that reads back is closer than the hit. -/
theorem abs_hit_sub_le {rank digits c : Nat} (hpos : 0 < rank)
    (hhit : onGrid? rank (leadingPlace (units rank) - (digits + 1 : Nat)) = some c)
    {d : Decimal} (hd : d.nearestRank = rank) (hdigits : digitCount d.coefficient = digits + 1) :
    |(⟨c, leadingPlace (units rank) - (digits + 1 : Nat)⟩ : Decimal).value - rankValue rank| ≤
      |d.value - rankValue rank| := by
  obtain ⟨k, hk, hle⟩ := exists_on_grid hpos hd
  rw [hdigits] at hk hle
  refine le_trans ?_ hle
  by_cases hkc : k = c
  · rw [hkc]
  · rw [abs_value_sub_rankValue, abs_value_sub_rankValue]
    exact mul_le_mul_of_nonneg_right (onGrid?_closest hhit hk hkc).1 (ten_zpow_pos _).le

/-- Nothing else on the grid of a power of ten above the value reads back and is as close: a greater
point is farther, and zero does not read back. -/
theorem abs_place_sub_ne {rank k : Nat} {place : Int} (hpos : 0 < rank)
    (hplace : rankValue rank < (⟨1, place⟩ : Decimal).value)
    (hk : (⟨k, place⟩ : Decimal).nearestRank = rank) (hne : k ≠ 1) :
    |(⟨1, place⟩ : Decimal).value - rankValue rank| ≠
      |(⟨k, place⟩ : Decimal).value - rankValue rank| := by
  obtain rfl | hpos' := Nat.eq_zero_or_pos k
  · rw [Decimal.nearestRank_zero] at hk
    exact absurd hk hpos.ne
  · have hlt : 1 < k := Nat.lt_of_le_of_ne hpos' hne.symm
    exact (abs_value_sub_lt hplace.le hlt).ne

theorem isShortest_shortest_zero : IsShortest 0 (shortest 0) where
  readsBack := nearestRank_shortest 0
  fewest := fun d' _ => digitCount_pos d'.coefficient
  closest := by
    intro d' _ _
    have hzero : (shortest 0).value = rankValue 0 := by
      rw [shortest_zero, Decimal.value, rankValue_zero, Nat.cast_zero, zero_mul]
    rw [hzero, sub_self, abs_zero]
    exact abs_nonneg _
  even_of_tie := fun _ _ _ _ => rfl

/-- **The shortest decimal is the shortest**, and the closest of those with as few digits. -/
theorem isShortest_shortest (rank : Nat) : IsShortest rank (shortest rank) := by
  obtain rfl | hpos := Nat.eq_zero_or_pos rank
  · exact isShortest_shortest_zero
  obtain ⟨digits, c, hhit, hcoarser, hcases⟩ := shortest_cases hpos
  have hcount : digitCount (shortest rank).coefficient = digits + 1 := by
    obtain ⟨heq, hc⟩ | ⟨heq, hdigits, -⟩ := hcases
    · rw [heq, hc]
    · rw [hdigits, heq]
      exact (by decide : digitCount 1 = 1)
  have hvalue : (shortest rank).value =
      (⟨c, leadingPlace (units rank) - (digits + 1 : Nat)⟩ : Decimal).value := by
    obtain ⟨heq, -⟩ | ⟨heq, rfl, rfl⟩ := hcases
    · rw [heq]
    · have hshift := Decimal.value_shift 1 1 (leadingPlace (units rank) - (0 + 1 : Nat))
      rw [heq]
      simpa using hshift.symm
  exact {
    readsBack := nearestRank_shortest rank
    fewest := by
      intro d' hd'
      rw [hcount]
      exact lt_digitCount_of_nearestRank hpos hcoarser hd'
    closest := by
      intro d' hd' hdigits
      rw [hvalue]
      exact abs_hit_sub_le hpos hhit hd' (hdigits.trans hcount)
    even_of_tie := by
      intro k hk hne htie
      obtain ⟨heq, -⟩ | ⟨heq, -, -⟩ := hcases
      · rw [heq] at hk hne htie ⊢
        rw [abs_value_sub_rankValue, abs_value_sub_rankValue] at htie
        exact (onGrid?_closest hhit hk hne).2 (mul_right_cancel₀ (ten_zpow_pos _).ne' htie)
      · rw [heq] at hk hne htie
        dsimp only at hk hne htie
        exact absurd htie (abs_place_sub_ne hpos (rankValue_lt_of_leadingPlace hpos) hk hne) }

end Binary64

end DeskCalculator.Numeric
