import DeskCalculator.Text.CharacterClass

/-!
# DeskCalculator.Proofs.Text.NumeralChar

The characters that numbers consist of, in expressions and in results alike: ASCII digits and the
point. They lie between the code points 46 and 57, and no blank does.
-/

namespace DeskCalculator.Text

/-- A character of a number: a digit of ASCII or the point. -/
def IsNumeralChar (c : Char) : Prop := c.isDigit = true ∨ c = '.'

variable {c : Char}

theorem toNat_of_isDigit (h : c.isDigit = true) : 48 ≤ c.toNat ∧ c.toNat ≤ 57 := by
  simpa [Char.isDigit, UInt32.le_iff_toNat_le] using h

theorem IsNumeralChar.toNat (h : IsNumeralChar c) : 46 ≤ c.toNat ∧ c.toNat ≤ 57 := by
  rcases h with h | rfl
  · have hdigit := toNat_of_isDigit h
    omega
  · decide

theorem IsNumeralChar.isBlank (h : IsNumeralChar c) : isBlank c = false := by
  have hrange := h.toNat
  simp [Text.isBlank, isWhiteSpace, inRanges, whiteSpaceRanges, isSeparator]
  omega

theorem IsNumeralChar.isWhiteSpace (h : IsNumeralChar c) : isWhiteSpace c = false := by
  have hblank := h.isBlank
  rw [Text.isBlank, Bool.or_eq_false_iff] at hblank
  exact hblank.1

theorem IsNumeralChar.ne_of_toNat {other : Char} (h : IsNumeralChar c)
    (hother : other.toNat < 46 ∨ 57 < other.toNat) : c ≠ other := by
  rintro rfl
  have hrange := h.toNat
  omega

theorem isDecimalDigit_of_isDigit (h : c.isDigit = true) : isDecimalDigit c = true := by
  rw [isDecimalDigit, digitValue?_of_isDigit h]
  rfl

/-- The digits of ASCII, one by one. -/
theorem isDigit_iff_mem : c.isDigit = true ↔ c ∈ "0123456789".toList := by
  constructor
  · intro h
    obtain ⟨hlow, hhigh⟩ := toNat_of_isDigit h
    have hall : ∀ n < 58, 48 ≤ n → Char.ofNat n ∈ "0123456789".toList := by decide
    have hmem := hall c.toNat (by omega) hlow
    rwa [Char.ofNat_toNat] at hmem
  · have hall : "0123456789".toList.all Char.isDigit = true := by decide
    exact List.all_eq_true.mp hall c

theorem ne_point_of_isDigit (h : c.isDigit = true) : (c != '.') = true := by
  rw [bne_iff_ne]
  rintro rfl
  exact absurd h (by decide)

/-- Digits of ASCII denote what core reads from them. -/
theorem digitsValue_eq {digits : List Char} (h : ∀ c ∈ digits, c.isDigit = true) :
    digitsValue digits = Nat.ofDigitChars 10 digits 0 := by
  have hgen : ∀ value, digits.foldl
      (fun value c => value * 10 + (digitValue? c).getD 0) value =
        Nat.ofDigitChars 10 digits value := by
    induction digits with
    | nil => intro value; simp
    | cons c digits ih =>
      intro value
      have hc : (digitValue? c).getD 0 = c.toNat - 48 := by
        rw [digitValue?_of_isDigit (h c (by simp))]
        rfl
      rw [List.foldl_cons, hc, ih fun c' hc' => h c' (List.mem_cons_of_mem c hc'),
        Nat.ofDigitChars_cons, Nat.mul_comm]
      rfl
  exact hgen 0

theorem isDigit_of_mem_toDigits {n : Nat} : ∀ c ∈ Nat.toDigits 10 n, c.isDigit = true :=
  fun _ hc => Nat.isDigit_of_mem_toDigits (by decide) (by decide) hc

end DeskCalculator.Text
