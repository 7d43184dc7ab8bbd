import DeskCalculator.Numeric.Binary64
import Mathlib.Order.Monotone.Basic
import Mathlib.Tactic.GCongr
import Mathlib.Tactic.Linarith
import Mathlib.Tactic.Ring

/-!
# DeskCalculator.Proofs.Numeric.NearestRank

Rounding to a binary number, by its one specification: a fraction is rounded to a rank or below
exactly if it lies before the middle between that rank and the next one, or in the middle and the
rank is even (`nearestRank_le_iff`). That rounding keeps the order, that it does not depend on how
the fraction is written, and that a value is its own rounding all follow from it.
-/

namespace DeskCalculator.Numeric

/-- Which neighbour a quotient is rounded to, and why. -/
theorem roundHalfEven_cases (n : Nat) {d : Nat} (hd : 0 < d) :
    (roundHalfEven n d = n / d ∧ (2 * (n % d) < d ∨ 2 * (n % d) = d ∧ n / d % 2 = 0)) ∨
      (roundHalfEven n d = n / d + 1 ∧
        (d < 2 * (n % d) ∨ 2 * (n % d) = d ∧ (n / d + 1) % 2 = 0)) := by
  have hlt : n % d < d := Nat.mod_lt n hd
  unfold roundHalfEven
  by_cases hbelow : 2 * (n % d) < d
  · rw [if_pos hbelow]
    exact .inl ⟨rfl, .inl hbelow⟩
  rw [if_neg hbelow]
  by_cases habove : d < 2 * (n % d)
  · rw [if_pos habove]
    exact .inr ⟨rfl, .inl habove⟩
  rw [if_neg habove]
  -- halfway
  by_cases heven : n / d % 2 = 0
  · rw [if_pos heven]
    exact .inl ⟨rfl, .inr ⟨by omega, heven⟩⟩
  · rw [if_neg heven]
    exact .inr ⟨rfl, .inr ⟨by omega, by omega⟩⟩

/-- The rounded quotient is at most half a divisor away from the exact one, and even if it is half
a divisor away. -/
theorem roundHalfEven_spec (n : Nat) {d : Nat} (hd : 0 < d) :
    2 * n ≤ 2 * (roundHalfEven n d * d) + d ∧ 2 * (roundHalfEven n d * d) ≤ 2 * n + d ∧
      (2 * n = 2 * (roundHalfEven n d * d) + d ∨ 2 * (roundHalfEven n d * d) = 2 * n + d →
        roundHalfEven n d % 2 = 0) := by
  have hn : n / d * d + n % d = n := by
    rw [Nat.mul_comm]
    exact Nat.div_add_mod n d
  have hlt : n % d < d := Nat.mod_lt n hd
  rcases roundHalfEven_cases n hd with ⟨hr, hhalf⟩ | ⟨hr, hhalf⟩
  · rw [hr]
    omega
  · have hsucc : (n / d + 1) * d = n / d * d + d := Nat.succ_mul _ _
    rw [hr, hsucc]
    omega

namespace Binary64

/-! ### The values in ascending order -/

theorem fractionCount_pos : 0 < fractionCount := by decide

theorem unitsPerOne_pos : 0 < unitsPerOne := by decide +kernel

/-- The first ranks are their own values. -/
theorem units_of_lt {rank : Nat} (h : rank < fractionCount) : units rank = rank := by
  simp [units, h]

/-- The values of a later row. -/
theorem units_row (row : Nat) {m : Nat} (h : m < fractionCount) :
    units ((row + 1) * fractionCount + m) = (fractionCount + m) * 2 ^ row := by
  have hpos := fractionCount_pos
  have hle : fractionCount ≤ (row + 1) * fractionCount + m := by nlinarith
  have hdiv : ((row + 1) * fractionCount + m) / fractionCount = row + 1 := by
    rw [Nat.mul_comm, Nat.mul_add_div hpos, Nat.div_eq_of_lt h, Nat.add_zero]
  have hmod : ((row + 1) * fractionCount + m) % fractionCount = m := by
    rw [Nat.mul_comm, Nat.mul_add_mod, Nat.mod_eq_of_lt h]
  simp [units, Nat.not_lt.mpr hle, hdiv, hmod]

/-- Every rank is one of the first or lies in a later row. -/
theorem rank_cases (rank : Nat) : rank < fractionCount ∨
    ∃ row m, m < fractionCount ∧ rank = (row + 1) * fractionCount + m := by
  rcases Nat.lt_or_ge rank fractionCount with h | h
  · exact .inl h
  · have hrow : 1 ≤ rank / fractionCount := (Nat.one_le_div_iff fractionCount_pos).mpr h
    refine .inr ⟨rank / fractionCount - 1, rank % fractionCount,
      Nat.mod_lt _ fractionCount_pos, ?_⟩
    rw [Nat.sub_add_cancel hrow, Nat.mul_comm]
    exact (Nat.div_add_mod _ _).symm

/-- How far the next value is away. -/
def spacing (rank : Nat) : Nat := 2 ^ (rank / fractionCount - 1)

theorem spacing_of_lt {rank : Nat} (h : rank < fractionCount) : spacing rank = 1 := by
  simp [spacing, Nat.div_eq_of_lt h]

theorem spacing_row (row : Nat) {m : Nat} (h : m < fractionCount) :
    spacing ((row + 1) * fractionCount + m) = 2 ^ row := by
  rw [spacing, Nat.mul_comm, Nat.mul_add_div fractionCount_pos, Nat.div_eq_of_lt h]
  rfl

theorem spacing_mono {a b : Nat} (h : a ≤ b) : spacing a ≤ spacing b :=
  Nat.pow_le_pow_right (by decide) (Nat.sub_le_sub_right (Nat.div_le_div_right h) 1)

theorem units_succ (rank : Nat) : units (rank + 1) = units rank + spacing rank := by
  have hpos := fractionCount_pos
  rcases rank_cases rank with h | ⟨row, m, hm, rfl⟩
  · -- the last of the first ranks is followed by the first value of the next row
    rw [units_of_lt h, spacing_of_lt h]
    rcases Nat.lt_or_ge (rank + 1) fractionCount with h' | h'
    · rw [units_of_lt h']
    · have hrank : rank + 1 = (0 + 1) * fractionCount + 0 := by omega
      rw [hrank, units_row 0 hpos]
      omega
  · rw [units_row row hm, spacing_row row hm]
    rcases Nat.lt_or_ge (m + 1) fractionCount with h' | h'
    · rw [Nat.add_assoc, units_row row h']
      ring
    · -- the last of a row is followed by the first of the next row, which is spaced twice as far
      have hm' : m + 1 = fractionCount := by omega
      have hrank : (row + 1) * fractionCount + m + 1 = (row + 1 + 1) * fractionCount + 0 := by
        rw [Nat.succ_mul (row + 1)]
        omega
      rw [hrank, units_row (row + 1) hpos, Nat.add_zero]
      calc fractionCount * 2 ^ (row + 1)
        _ = (fractionCount + (m + 1)) * 2 ^ row := by
            rw [hm', pow_succ]
            ring
        _ = (fractionCount + m) * 2 ^ row + 2 ^ row := by ring

theorem spacing_pos (rank : Nat) : 0 < spacing rank := Nat.pow_pos (by decide)

theorem units_strictMono : StrictMono units :=
  strictMono_nat_of_lt_succ fun rank => by
    rw [units_succ]
    exact Nat.lt_add_of_pos_right (spacing_pos rank)

@[simp] theorem units_zero : units 0 = 0 := rfl

theorem units_pos {rank : Nat} (h : 0 < rank) : 0 < units rank := by
  simpa using units_strictMono h

/-- A value and a shift by a power of two: the ranks that rounding builds. -/
theorem units_shift {shift m : Nat} (hm : m ≤ 2 * fractionCount)
    (h : shift = 0 ∨ fractionCount ≤ m) : units (shift * fractionCount + m) = m * 2 ^ shift := by
  have hpos := fractionCount_pos
  rcases Nat.lt_or_ge m fractionCount with hlt | hge
  · obtain rfl : shift = 0 := by omega
    simp [units_of_lt hlt]
  · rcases Nat.lt_or_ge m (2 * fractionCount) with hlt | hge'
    · have hrank : shift * fractionCount + m =
          (shift + 1) * fractionCount + (m - fractionCount) := by
        rw [Nat.succ_mul]
        omega
      rw [hrank, units_row shift (by omega), Nat.add_sub_cancel' hge]
    · obtain rfl : m = 2 * fractionCount := by omega
      have hrank : shift * fractionCount + 2 * fractionCount =
          (shift + 1 + 1) * fractionCount + 0 := by ring
      rw [hrank, units_row (shift + 1) hpos, pow_succ]
      ring

/-! ### Rounding a fraction -/

/-- Twice the middle between a value and the next one. -/
def middle (rank : Nat) : Nat := units rank + units (rank + 1)

theorem middle_strictMono : StrictMono middle := fun _ _ h =>
  Nat.add_lt_add (units_strictMono h) (units_strictMono (Nat.succ_lt_succ h))

/-- How the rank of a fraction is built: a shift, and a quotient rounded to at most one bit more
than a fraction has. A shift means that the quotient has all of these bits. -/
theorem exists_nearestRank_eq (n : Nat) {d : Nat} (hd : 0 < d) :
    ∃ shift m, nearestRank n d = shift * fractionCount + m ∧
      m = roundHalfEven n (d * 2 ^ shift) ∧ m ≤ 2 * fractionCount ∧
        (shift = 0 ∨ fractionCount ≤ m ∧ fractionCount * (d * 2 ^ shift) ≤ n) := by
  have hfraction : fractionCount = 2 ^ 52 := rfl
  obtain ⟨shift, hshift⟩ : ∃ shift, shift = Nat.log2 (n / d) - 52 := ⟨_, rfl⟩
  have hpos : 0 < d * 2 ^ shift := Nat.mul_pos hd (Nat.pow_pos (by decide))
  have hquot := roundHalfEven_eq_or n (d * 2 ^ shift)
  refine ⟨shift, roundHalfEven n (d * 2 ^ shift), by rw [hshift]; rfl, rfl, ?_, ?_⟩
  · -- the quotient is below twice the count, so its rounding does not exceed that
    have hlt : n / (d * 2 ^ shift) < 2 * fractionCount := by
      rw [Nat.div_lt_iff_lt_mul hpos]
      calc n < 2 ^ (Nat.log2 (n / d) + 1) * d := (Nat.div_lt_iff_lt_mul hd).mp Nat.lt_log2_self
        _ ≤ 2 ^ (53 + shift) * d :=
            Nat.mul_le_mul_right d (Nat.pow_le_pow_right (by decide) (by omega))
        _ = 2 * fractionCount * (d * 2 ^ shift) := by
            rw [hfraction, pow_add]
            ring
    omega
  · rcases Nat.eq_zero_or_pos shift with h | h
    · exact .inl h
    · have hq : n / d ≠ 0 := by
        intro hzero
        simp [hshift, hzero] at h
      have hfull : fractionCount * (d * 2 ^ shift) ≤ n :=
        calc fractionCount * (d * 2 ^ shift)
          _ = 2 ^ (52 + shift) * d := by
              rw [hfraction, pow_add]
              ring
          _ = 2 ^ Nat.log2 (n / d) * d := by rw [hshift, Nat.add_sub_cancel' (by omega)]
          _ ≤ n / d * d := Nat.mul_le_mul_right d (Nat.log2_self_le hq)
          _ ≤ n := Nat.div_mul_le_self n d
      have hle : fractionCount ≤ n / (d * 2 ^ shift) := (Nat.le_div_iff_mul_le hpos).mpr hfull
      exact .inr ⟨by omega, hfull⟩

/-- A fraction lies between the two middles around its rank, and the rank is even if the fraction
lies in one of them. -/
theorem nearestRank_between (n : Nat) {d : Nat} (hd : 0 < d) :
    (2 * n ≤ d * middle (nearestRank n d) ∧
      (2 * n = d * middle (nearestRank n d) → nearestRank n d % 2 = 0)) ∧
    ∀ r, nearestRank n d = r + 1 → d * middle r ≤ 2 * n ∧
      (2 * n = d * middle r → nearestRank n d % 2 = 0) := by
  obtain ⟨shift, m, hrank, hm, hle, hfull⟩ := exists_nearestRank_eq n hd
  obtain ⟨hup, hlow, heven⟩ := roundHalfEven_spec n (d := d * 2 ^ shift)
    (Nat.mul_pos hd (Nat.pow_pos (by decide)))
  rw [← hm] at hup hlow heven
  have hunits : units (nearestRank n d) = m * 2 ^ shift := by
    rw [hrank, units_shift hle (hfull.imp_right And.left)]
  have hparity : nearestRank n d % 2 = m % 2 := by
    have h52 : fractionCount = 2 * 2251799813685248 := rfl
    rw [hrank, h52]
    omega
  rw [hparity]
  constructor
  · -- the next value is at least one unit of the quotient away
    have hnext : m * 2 ^ shift + 2 ^ shift ≤ units (nearestRank n d + 1) := by
      rw [units_succ, hunits]
      refine Nat.add_le_add_left (Nat.pow_le_pow_right (by decide) ?_) _
      rcases hfull with h | ⟨h, -⟩
      · omega
      · have hrow : shift + 1 ≤ nearestRank n d / fractionCount := by
          rw [Nat.le_div_iff_mul_le fractionCount_pos, hrank, Nat.succ_mul]
          omega
        omega
    have hmiddle : 2 * (m * (d * 2 ^ shift)) + d * 2 ^ shift ≤ d * middle (nearestRank n d) := by
      calc 2 * (m * (d * 2 ^ shift)) + d * 2 ^ shift
        _ = d * (m * 2 ^ shift + (m * 2 ^ shift + 2 ^ shift)) := by ring
        _ ≤ d * middle (nearestRank n d) := by
            rw [middle, hunits]
            exact Nat.mul_le_mul_left d (Nat.add_le_add_left hnext _)
    exact ⟨hup.trans hmiddle, fun heq => heven (.inl (by omega))⟩
  · intro r hr
    by_cases hrow : shift = 0 ∨ fractionCount < m
    · -- the value before is one unit of the quotient away
      have hmpos : 0 < m := by
        rcases hrow with rfl | h
        · omega
        · exact Nat.lt_of_le_of_lt (Nat.zero_le _) h
      have hprev : units r = (m - 1) * 2 ^ shift := by
        rw [← @units_shift shift (m - 1) (by omega) (hrow.imp_right Nat.le_sub_one_of_lt)]
        congr 1
        omega
      have hmiddle : d * middle r + d * 2 ^ shift = 2 * (m * (d * 2 ^ shift)) := by
        rw [middle, ← hr, hunits, hprev]
        obtain ⟨k, rfl⟩ : ∃ k, m = k + 1 := ⟨m - 1, by omega⟩
        rw [Nat.add_sub_cancel]
        ring
      exact ⟨by omega, fun heq => heven (.inr (by omega))⟩
    · -- the first value of a row: the fraction does not lie below it
      have hfirst : d * units (nearestRank n d) ≤ n := by
        obtain ⟨hm', hn⟩ := hfull.resolve_left (fun h => hrow (.inl h))
        have hm'' : m = fractionCount := Nat.le_antisymm (by omega) hm'
        calc d * units (nearestRank n d) = fractionCount * (d * 2 ^ shift) := by
              rw [hunits, hm'']
              ring
          _ ≤ n := hn
      have hlt : d * units r < d * units (nearestRank n d) :=
        Nat.mul_lt_mul_of_pos_left (units_strictMono (by omega)) hd
      have hmiddle : d * middle r = d * units r + d * units (nearestRank n d) := by
        rw [middle, hr, Nat.mul_add]
      exact ⟨by omega, fun heq => by omega⟩

/-- **The specification of rounding.** A fraction is rounded to a rank or below exactly if it lies
before the middle that follows the rank, or in that middle and the rank is even. -/
theorem nearestRank_le_iff {n d r : Nat} (hd : 0 < d) :
    nearestRank n d ≤ r ↔ 2 * n < d * middle r ∨ 2 * n = d * middle r ∧ r % 2 = 0 := by
  obtain ⟨⟨hup, hupeven⟩, hlow⟩ := nearestRank_between n hd
  constructor
  · intro hle
    rcases Nat.lt_or_eq_of_le hle with hlt | rfl
    · have hmiddle : d * middle (nearestRank n d) < d * middle r :=
        Nat.mul_lt_mul_of_pos_left (middle_strictMono hlt) hd
      exact .inl (by omega)
    · rcases Nat.lt_or_eq_of_le hup with h | h
      · exact .inl h
      · exact .inr ⟨h, hupeven h⟩
  · intro h
    by_contra hlt
    obtain ⟨k, hk⟩ := Nat.exists_eq_add_of_lt (Nat.lt_of_not_le hlt)
    obtain ⟨hge, heven⟩ := hlow (r + k) hk
    rcases Nat.eq_zero_or_pos k with rfl | hpos
    · -- in the middle itself both ranks would be even
      rcases h with h | ⟨h, hr⟩
      · rw [Nat.add_zero] at hge
        omega
      · have := heven h
        omega
    · have hmiddle : d * middle r < d * middle (r + k) :=
        Nat.mul_lt_mul_of_pos_left (middle_strictMono (by omega)) hd
      omega

/-! ### Consequences -/

/-- Rounding keeps the order. -/
theorem nearestRank_mono {n d n' d' : Nat} (hd : 0 < d) (hd' : 0 < d') (h : n * d' ≤ n' * d) :
    nearestRank n d ≤ nearestRank n' d' := by
  rw [nearestRank_le_iff hd]
  have hbound := (nearestRank_le_iff (n := n') (r := nearestRank n' d') hd').mp le_rfl
  generalize middle (nearestRank n' d') = middle at hbound ⊢
  have hcross : 2 * n * d' ≤ 2 * n' * d := by
    rw [Nat.mul_assoc, Nat.mul_assoc]
    exact Nat.mul_le_mul_left 2 h
  rcases hbound with hlt | ⟨heq, heven⟩
  · left
    have hscaled : 2 * n' * d < d' * middle * d := Nat.mul_lt_mul_of_pos_right hlt hd
    refine Nat.lt_of_mul_lt_mul_right (a := d') ?_
    calc 2 * n * d' < d' * middle * d := hcross.trans_lt hscaled
      _ = d * middle * d' := by ring
  · have hle : 2 * n ≤ d * middle := by
      refine Nat.le_of_mul_le_mul_right (c := d') ?_ hd'
      calc 2 * n * d' ≤ 2 * n' * d := hcross
        _ = d * middle * d' := by
            rw [heq]
            ring
    exact (Nat.lt_or_eq_of_le hle).imp_right fun heq' => ⟨heq', heven⟩

/-- A fraction strictly between the two middles around a value is rounded to it. -/
theorem nearestRank_eq_of_between {n d r : Nat} (hd : 0 < d) (hup : 2 * n < d * middle r)
    (hlow : ∀ k, r = k + 1 → d * middle k < 2 * n) : nearestRank n d = r := by
  refine Nat.le_antisymm ((nearestRank_le_iff hd).mpr (.inl hup)) ?_
  rcases Nat.eq_zero_or_pos r with rfl | hpos
  · exact Nat.zero_le _
  · obtain ⟨k, rfl⟩ : ∃ k, r = k + 1 := ⟨r - 1, by omega⟩
    have hgt := hlow k rfl
    by_contra hnot
    rcases (nearestRank_le_iff hd).mp (Nat.le_of_lt_succ (Nat.lt_of_not_le hnot)) with h | ⟨h, -⟩ <;>
      omega

/-- A fraction is rounded to a value if twice its distance is less than the gap before the value:
the gap after it is no smaller. -/
theorem nearestRank_eq_of_close {n d gap k : Nat} (hd : 0 < d) (hgap : gap < d * spacing k)
    (hlow : 2 * (d * units (k + 1)) ≤ 2 * n + gap) (hup : 2 * n ≤ 2 * (d * units (k + 1)) + gap) :
    nearestRank n d = k + 1 := by
  have hnext : gap < d * spacing (k + 1) :=
    hgap.trans_le (Nat.mul_le_mul_left d (spacing_mono (Nat.le_succ k)))
  refine nearestRank_eq_of_between hd ?_ ?_
  · have hmiddle : d * middle (k + 1) = 2 * (d * units (k + 1)) + d * spacing (k + 1) := by
      rw [middle, units_succ (k + 1)]
      ring
    omega
  · intro i hi
    obtain rfl : k = i := Nat.succ.inj hi
    have hmiddle : d * middle k + d * spacing k = 2 * (d * units (k + 1)) := by
      rw [middle, units_succ k]
      ring
    omega

/-- A value is its own rounding. -/
theorem nearestRank_units (r : Nat) {d : Nat} (hd : 0 < d) : nearestRank (units r * d) d = r := by
  refine nearestRank_eq_of_between hd ?_ ?_
  · have hlt : units r < units (r + 1) := units_strictMono (Nat.lt_succ_self r)
    rw [middle]
    nlinarith
  · rintro k rfl
    have hlt : units k < units (k + 1) := units_strictMono (Nat.lt_succ_self k)
    rw [middle]
    nlinarith

/-- The value nearest to a fraction is finite if the fraction does not exceed a finite value. -/
theorem ofFraction_eq_finite {negative : Bool} {n d : Nat} {r : Nat} (hr : r < rankBound)
    (h : nearestRank n d = r) : ofFraction negative n d = .finite ⟨negative, r, hr⟩ := by
  subst h
  rw [ofFraction, dif_pos hr]

end Binary64

end DeskCalculator.Numeric
