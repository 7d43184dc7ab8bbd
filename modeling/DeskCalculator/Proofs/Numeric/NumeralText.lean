import Mathlib.Data.List.TakeWhile
import DeskCalculator.Numeric.Numeral
import DeskCalculator.Proofs.Numeric.DecimalValue
import DeskCalculator.Proofs.Text.NumeralChar

/-!
# DeskCalculator.Proofs.Numeric.NumeralText

Positional notation is read back. Such a text is digits, or digits, a point and digits again, and
the numeral reader takes it apart where it was put together (`ofText?_digits`, `ofText?_point`).
What it reads is a decimal of the same value (`exists_ofText?_positional`), and the places after
the point are those that the exponent asks for (`length_fractionPart_positional`).
-/

namespace DeskCalculator.Numeric

open Text

/-! ### Digits filled up with zeros -/

namespace Decimal

theorem isDigit_of_mem_paddedDigits {width n : Nat} :
    ∀ c ∈ paddedDigits width n, c.isDigit = true := by
  intro c hc
  rcases List.mem_append.mp hc with hzero | hdigit
  · rw [(List.mem_replicate.mp hzero).2]
    rfl
  · exact isDigit_of_mem_toDigits c hdigit

theorem length_paddedDigits {width n : Nat} (hwidth : 0 < width) (h : n < 10 ^ width) :
    (paddedDigits width n).length = width := by
  have hle : digitCount n ≤ width := (digitCount_le_iff hwidth).mpr h
  rw [digitCount] at hle
  simp [paddedDigits]
  omega

/-- Zeros in front are worth nothing. -/
theorem ofDigitChars_paddedDigits (width n : Nat) :
    Nat.ofDigitChars 10 (paddedDigits width n) 0 = n := by
  simp [paddedDigits, Nat.ofDigitChars_append]

end Decimal

/-! ### Reading digits with or without a point -/

namespace Numeral

variable {text whole fraction : List Char}

theorem dropWhile_isWhiteSpace (h : ∀ c ∈ text, IsNumeralChar c) :
    text.dropWhile isWhiteSpace = text := by
  cases text with
  | nil => rfl
  | cons c text => simp [(h c (by simp)).isWhiteSpace]

/-- There is no white space to take away. -/
theorem trim_eq_self (h : ∀ c ∈ text, IsNumeralChar c) : trim text = text := by
  rw [trim, dropWhile_isWhiteSpace h, dropWhile_isWhiteSpace (by simpa using h),
    List.reverse_reverse]

/-- There are no underscores to drop. -/
theorem dropUnderscores_eq_self (afterDigit : Bool) (h : ∀ c ∈ text, IsNumeralChar c) :
    dropUnderscores afterDigit text = some text := by
  induction text generalizing afterDigit with
  | nil => simp [dropUnderscores]
  | cons c text ih =>
    have hc : c ≠ '_' := (h c (by simp)).ne_of_toNat (by decide)
    have hrest := ih (isDecimalDigit c) fun c' hc' => h c' (List.mem_cons_of_mem c hc')
    rw [dropUnderscores, if_neg hc, hrest]
    · rfl
    · rintro _ _ rfl
      exact fun _ => hc rfl

/-- There is no sign to split off. -/
theorem takeSign_eq (h : ∀ c ∈ text, IsNumeralChar c) : takeSign text = (false, text) := by
  unfold takeSign
  split
  · exact absurd rfl ((h '-' (by simp)).ne_of_toNat (by decide))
  · exact absurd rfl ((h '+' (by simp)).ne_of_toNat (by decide))
  · rfl

theorem splitPoint_digits (hw : ∀ c ∈ whole, c.isDigit = true) :
    splitPoint whole = (whole, [], []) := by
  have hall : ∀ c ∈ whole, isDecimalDigit c = true :=
    fun c hc => isDecimalDigit_of_isDigit (hw c hc)
  have hdrop : whole.dropWhile isDecimalDigit = [] := List.dropWhile_eq_nil_iff.mpr hall
  have htake : whole.takeWhile isDecimalDigit = whole := List.takeWhile_eq_self_iff.mpr hall
  rw [splitPoint, hdrop, htake]

theorem splitPoint_point (hw : ∀ c ∈ whole, c.isDigit = true)
    (hf : ∀ c ∈ fraction, c.isDigit = true) :
    splitPoint (whole ++ '.' :: fraction) = (whole, fraction, []) := by
  have hallw : ∀ c ∈ whole, isDecimalDigit c = true :=
    fun c hc => isDecimalDigit_of_isDigit (hw c hc)
  have hallf : ∀ c ∈ fraction, isDecimalDigit c = true :=
    fun c hc => isDecimalDigit_of_isDigit (hf c hc)
  have hpoint : isDecimalDigit '.' = false := by decide
  have hdrop : (whole ++ '.' :: fraction).dropWhile isDecimalDigit = '.' :: fraction := by
    rw [List.dropWhile_append_of_pos hallw, List.dropWhile_cons_of_neg (by simp [hpoint])]
  have htake : (whole ++ '.' :: fraction).takeWhile isDecimalDigit = whole := by
    rw [List.takeWhile_append_of_pos hallw, List.takeWhile_cons_of_neg (by simp [hpoint]),
      List.append_nil]
  rw [splitPoint, hdrop, htake]
  simp only
  rw [List.takeWhile_eq_self_iff.mpr hallf, List.dropWhile_eq_nil_iff.mpr hallf]

theorem splitPoint_zero_cons (text : List Char) :
    splitPoint ('0' :: text) = ('0' :: (splitPoint text).1, (splitPoint text).2) := by
  have hzero : isDecimalDigit '0' = true := by decide
  rw [splitPoint, splitPoint, List.takeWhile_cons_of_pos hzero, List.dropWhile_cons_of_pos hzero]
  split <;> rfl

/-- A zero in front of a numeral is worth nothing. -/
theorem decimal?_zero_cons (h : decimal? text ≠ none) :
    decimal? ('0' :: text) = decimal? text := by
  have hvalue : ∀ digits, digitsValue ('0' :: digits) = digitsValue digits := by
    intro digits
    have hzero : 0 * 10 + (digitValue? '0').getD 0 = 0 := by decide
    rw [digitsValue, List.foldl_cons, hzero, digitsValue]
  rw [decimal?, splitPoint_zero_cons, decimal?]
  rw [decimal?] at h
  generalize splitPoint text = parts at h ⊢
  obtain ⟨whole, fraction, rest⟩ := parts
  have hdigits : ¬ (whole = [] ∧ fraction = []) := fun hnone => h (if_pos hnone)
  simp only [List.cons_append, hvalue]
  rw [if_neg (by simp), if_neg hdigits]

/-- A text without sign, underscores and white space around it is read by its decimal alone. -/
theorem ofText?_eq (h : ∀ c ∈ text, IsNumeralChar c) :
    ofText? text = (decimal? text).map fun d => ⟨false, d⟩ := by
  rw [ofText?, trim_eq_self h, dropUnderscores_eq_self false h, Option.bind_some]
  simp only [takeSign_eq h]

theorem ofText?_digits (hne : whole ≠ []) (hw : ∀ c ∈ whole, c.isDigit = true) :
    ofText? whole = some ⟨false, ⟨Nat.ofDigitChars 10 whole 0, 0⟩⟩ := by
  rw [ofText?_eq fun c hc => .inl (hw c hc), decimal?, splitPoint_digits hw]
  simp [hne, exponent?, digitsValue_eq hw]

theorem ofText?_point (hne : whole ≠ []) (hw : ∀ c ∈ whole, c.isDigit = true)
    (hf : ∀ c ∈ fraction, c.isDigit = true) :
    ofText? (whole ++ '.' :: fraction) =
      some ⟨false, ⟨Nat.ofDigitChars 10 (whole ++ fraction) 0, -(fraction.length : Int)⟩⟩ := by
  have hchars : ∀ c ∈ whole ++ '.' :: fraction, IsNumeralChar c := by
    intro c hc
    rcases List.mem_append.mp hc with hc | hc
    · exact .inl (hw c hc)
    · rcases List.mem_cons.mp hc with rfl | hc
      · exact .inr rfl
      · exact .inl (hf c hc)
  have hall : ∀ c ∈ whole ++ fraction, c.isDigit = true := by
    intro c hc
    exact (List.mem_append.mp hc).elim (hw c) (hf c)
  rw [ofText?_eq hchars, decimal?, splitPoint_point hw hf]
  simp [hne, exponent?, digitsValue_eq hall]

end Numeral

/-! ### Positional notation -/

namespace Decimal

theorem isNumeralChar_of_mem_positional (d : Decimal) : ∀ c ∈ d.positional, IsNumeralChar c := by
  intro c hc
  unfold positional at hc
  split at hc
  · exact .inl (isDigit_of_mem_toDigits c hc)
  · rcases List.mem_append.mp hc with hc | hc
    · exact .inl (isDigit_of_mem_toDigits c hc)
    · rcases List.mem_cons.mp hc with rfl | hc
      · exact .inr rfl
      · exact .inl (isDigit_of_mem_paddedDigits c hc)

theorem positional_ne_nil (d : Decimal) : d.positional ≠ [] := by
  unfold positional
  split
  · exact Nat.toDigits_ne_nil
  · simp

/-- **Positional notation is read back**: what is read has the same value. -/
theorem exists_ofText?_positional (d : Decimal) :
    ∃ d', Numeral.ofText? d.positional = some ⟨false, d'⟩ ∧ d'.value = d.value := by
  obtain ⟨c, e⟩ := d
  cases e with
  | ofNat zeros =>
    have hpositional : (⟨c, .ofNat zeros⟩ : Decimal).positional =
        Nat.toDigits 10 (c * 10 ^ zeros) := rfl
    refine ⟨⟨c * 10 ^ zeros, 0⟩, ?_, ?_⟩
    · rw [hpositional, Numeral.ofText?_digits Nat.toDigits_ne_nil isDigit_of_mem_toDigits,
        Nat.ofDigitChars_ten_toDigits]
    · rw [value_shift, Int.zero_add]
      rfl
  | negSucc places =>
    have hunit : 0 < Nat.pow 10 (places + 1) := Nat.pow_pos (by decide)
    refine ⟨_, Numeral.ofText?_point Nat.toDigits_ne_nil isDigit_of_mem_toDigits
      isDigit_of_mem_paddedDigits, ?_⟩
    have hlength := length_paddedDigits (Nat.succ_pos places)
      (Nat.mod_lt c hunit : c % Nat.pow 10 (places + 1) < 10 ^ (places + 1))
    rw [Nat.ofDigitChars_append, Nat.ofDigitChars_ten_toDigits,
      Nat.ofDigitChars_eq_ofDigitChars_zero, hlength, ofDigitChars_paddedDigits]
    have hsplit : 10 ^ (places + 1) * (c / Nat.pow 10 (places + 1)) +
        c % Nat.pow 10 (places + 1) = c := Nat.div_add_mod c _
    rw [hsplit]
    rfl

/-- What stands after the point. -/
def fractionPart (text : List Char) : List Char := (text.dropWhile (· != '.')).drop 1

/-- The places after the point are those that a negative exponent asks for. -/
theorem length_fractionPart_positional (d : Decimal) :
    (fractionPart d.positional).length = (-d.exponent).toNat := by
  obtain ⟨c, e⟩ := d
  cases e with
  | ofNat zeros =>
    have hdrop : (Nat.toDigits 10 (c * Nat.pow 10 zeros)).dropWhile (· != '.') = [] :=
      List.dropWhile_eq_nil_iff.mpr
        fun c' hc' => ne_point_of_isDigit (isDigit_of_mem_toDigits c' hc')
    rw [positional, fractionPart, hdrop]
    simp
  | negSucc places =>
    have hunit : 0 < Nat.pow 10 (places + 1) := Nat.pow_pos (by decide)
    have hlength := length_paddedDigits (Nat.succ_pos places)
      (Nat.mod_lt c hunit : c % Nat.pow 10 (places + 1) < 10 ^ (places + 1))
    rw [positional, fractionPart,
      List.dropWhile_append_of_pos fun c' hc' => ne_point_of_isDigit (isDigit_of_mem_toDigits c' hc'),
      List.dropWhile_cons_of_neg (by simp), List.drop_one, List.tail_cons, hlength]
    rfl

end Decimal

end DeskCalculator.Numeric
