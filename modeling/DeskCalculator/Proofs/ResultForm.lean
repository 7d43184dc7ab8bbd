import Mathlib.Computability.RegularExpressions
import DeskCalculator.Proofs.Input.Literals
import DeskCalculator.Proofs.Numeric.WholeValue
import DeskCalculator.Proofs.Recalculation

/-!
# DeskCalculator.Proofs.ResultForm

Results are written canonically, and nothing but the sign of zero is lost.

* **Form.** The text of a finite value is of the form `-?(0|[1-9][0-9]*)(\.[0-9]*[1-9])?`: whole
  numbers have no zeros in front (`mem_matches_of_isWhole`), and what stands behind a point does not
  end in a zero, because the coefficient of a shortest decimal does not (`coefficient_shortest`).
* **Content.** The text evaluates to the value (`evaluate_resultText`), so values with one text are
  equal.

Main statement: `resultText_canonical`, for every finite value.
-/

namespace DeskCalculator

open Numeric (Binary64 Decimal)
open Numeric.Binary64 (Finite shortest unitsPerOne)

/-! ### The form of a result -/

section Form

open RegularExpression

/-- One of the characters of a list. -/
def oneOf (chars : List Char) : RegularExpression Char := chars.foldr (char · + ·) 0

/-- The expression or nothing. -/
def optional (r : RegularExpression Char) : RegularExpression Char := 1 + r

/-- `[0-9]` -/
def digitForm : RegularExpression Char := oneOf "0123456789".toList

/-- `[1-9]` -/
def positiveDigitForm : RegularExpression Char := oneOf "123456789".toList

/-- `0|[1-9][0-9]*` -/
def wholeForm : RegularExpression Char := char '0' + positiveDigitForm * digitForm.star

/-- A point and places after it: `\.[0-9]*[1-9]`. -/
def placesForm : RegularExpression Char := char '.' * (digitForm.star * positiveDigitForm)

/-- The form of the text of a value without its sign. -/
def magnitudeForm : RegularExpression Char := wholeForm * optional placesForm

/-- The form of the text of a value: `-?(0|[1-9][0-9]*)(\.[0-9]*[1-9])?`. -/
def resultForm : RegularExpression Char := optional (char '-') * magnitudeForm

variable {chars text : List Char} {c : Char}

theorem mem_matches_oneOf : text ∈ (oneOf chars).matches' ↔ ∃ c ∈ chars, text = [c] := by
  induction chars with
  | nil => simp [oneOf]
  | cons c chars ih =>
    have hcons : text ∈ (oneOf (c :: chars)).matches' ↔
        text = [c] ∨ text ∈ (oneOf chars).matches' := Language.mem_add _ _ _
    rw [hcons, ih, List.exists_mem_cons_iff]

theorem mem_matches_star_oneOf :
    text ∈ (oneOf chars).star.matches' ↔ ∀ c ∈ text, c ∈ chars := by
  rw [matches'_star, Language.mem_kstar]
  constructor
  · rintro ⟨parts, rfl, hparts⟩ c hc
    obtain ⟨part, hpart, hc⟩ := List.mem_flatten.mp hc
    obtain ⟨c', hc', rfl⟩ := mem_matches_oneOf.mp (hparts part hpart)
    rwa [List.mem_singleton.mp hc]
  · intro h
    refine ⟨text.map ([·]), (List.flatMap_singleton' text).symm, ?_⟩
    intro part hpart
    obtain ⟨c, hc, rfl⟩ := List.mem_map.mp hpart
    exact mem_matches_oneOf.mpr ⟨c, h c hc, rfl⟩

theorem mem_matches_star_digitForm :
    text ∈ digitForm.star.matches' ↔ ∀ c ∈ text, c.isDigit = true := by
  simp only [digitForm, mem_matches_star_oneOf, Text.isDigit_iff_mem]

theorem mem_matches_positiveDigitForm (h : c.isDigit = true) (hzero : c ≠ '0') :
    [c] ∈ positiveDigitForm.matches' := by
  have hsplit : "0123456789".toList = '0' :: "123456789".toList := by decide
  have hmem := Text.isDigit_iff_mem.mp h
  rw [hsplit, List.mem_cons] at hmem
  exact mem_matches_oneOf.mpr ⟨c, hmem.resolve_left hzero, rfl⟩

theorem nil_mem_matches_optional (r : RegularExpression Char) : [] ∈ (optional r).matches' :=
  .inl rfl

theorem mem_matches_optional {r : RegularExpression Char} (h : text ∈ r.matches') :
    text ∈ (optional r).matches' := .inr h

/-- Digits as they can be typed are of the form of a whole number. -/
theorem mem_matches_of_isWhole (h : Input.IsWhole text) : text ∈ wholeForm.matches' := by
  obtain rfl | ⟨lead, rest, rfl, hlead, hdigits⟩ := h
  · exact .inl rfl
  · have hrest := mem_matches_star_digitForm.mpr fun c hc => hdigits c (List.mem_cons_of_mem lead hc)
    exact .inr (Language.append_mem_mul
      (mem_matches_positiveDigitForm (hdigits lead List.mem_cons_self) hlead) hrest)

end Form

/-! ### Positional notation -/

namespace Numeric.Decimal

/-- The last of the digits. -/
theorem exists_paddedDigits_eq (width n : Nat) : ∃ front, (∀ c ∈ front, c.isDigit = true) ∧
    paddedDigits width n = front ++ [(n % 10).digitChar] := by
  obtain ⟨front, hfront⟩ : ∃ front, Nat.toDigits 10 n = front ++ [(n % 10).digitChar] := by
    rw [Nat.toDigits_eq_if (by decide)]
    split
    · rename_i hlt
      exact ⟨[], by rw [Nat.mod_eq_of_lt hlt, List.nil_append]⟩
    · exact ⟨_, rfl⟩
  refine ⟨List.replicate (width - (Nat.toDigits 10 n).length) '0' ++ front, fun c hc => ?_, ?_⟩
  · refine @isDigit_of_mem_paddedDigits width n c ?_
    rw [paddedDigits, hfront, ← List.append_assoc]
    rw [hfront] at hc
    exact List.mem_append_left _ hc
  · rw [paddedDigits, List.append_assoc, ← hfront]

/-- A digit that is not zero. -/
theorem digitChar_mem_positiveDigitForm {n : Nat} (h : n % 10 ≠ 0) :
    [(n % 10).digitChar] ∈ positiveDigitForm.matches' := by
  have hall : ∀ d < 10, d ≠ 0 → d.digitChar.isDigit = true ∧ d.digitChar ≠ '0' := by decide
  obtain ⟨hdigit, hne⟩ := hall (n % 10) (Nat.mod_lt n (by decide)) h
  exact mem_matches_positiveDigitForm hdigit hne

/-- Positional notation of a decimal whose last place, if behind the point, is not zero. -/
theorem positional_mem_matches {d : Decimal} (h : d.exponent < 0 → d.coefficient % 10 ≠ 0) :
    d.positional ∈ magnitudeForm.matches' := by
  obtain ⟨c, e⟩ := d
  cases e with
  | ofNat zeros =>
    have hwhole := mem_matches_of_isWhole (Input.isWhole_toDigits (c * Nat.pow 10 zeros))
    rw [← List.append_nil (positional _)]
    exact Language.append_mem_mul hwhole (nil_mem_matches_optional _)
  | negSucc places =>
    have hlast : c % Nat.pow 10 (places + 1) % 10 = c % 10 :=
      Nat.mod_mod_of_dvd c (Dvd.intro_left (10 ^ places) rfl)
    obtain ⟨front, hdigits, hfront⟩ :=
      exists_paddedDigits_eq (places + 1) (c % Nat.pow 10 (places + 1))
    have hwhole := mem_matches_of_isWhole (Input.isWhole_toDigits (c / Nat.pow 10 (places + 1)))
    refine Language.append_mem_mul hwhole (mem_matches_optional ?_)
    rw [hfront]
    refine Language.append_mem_mul (a := ['.']) rfl
      (Language.append_mem_mul (mem_matches_star_digitForm.mpr hdigits) ?_)
    exact digitChar_mem_positiveDigitForm (hlast ▸ h (Int.negSucc_lt_zero places))

end Numeric.Decimal

/-! ### The text of a value -/

theorem resultText_mem_matches (v : Finite) : (resultText v).toList ∈ resultForm.matches' := by
  have hminus : ['-'] ∈ (RegularExpression.char '-').matches' := rfl
  rw [resultText]
  split
  · exact Language.append_mem_mul (a := []) (nil_mem_matches_optional _)
      (Decimal.positional_mem_matches (d := ⟨0, 0⟩) (by simp))
  · rename_i hzero
    have hpos := Finite.rank_pos hzero
    have hdigits := Decimal.positional_mem_matches fun _ =>
      Numeric.Binary64.coefficient_shortest hpos
    rw [String.toList_ofList]
    split
    · exact Language.append_mem_mul (mem_matches_optional hminus) hdigits
    · exact Language.append_mem_mul (a := []) (nil_mem_matches_optional _) hdigits

/-- Values that are equal as numbers are one value, unless they are zeros. -/
theorem Numeric.Binary64.Finite.eq_of_signedUnits_eq {v w : Finite}
    (h : v.signedUnits = w.signedUnits) (hv : v.isZero = false) : v = w := by
  have hne : v.signedUnits ≠ 0 := by simp [Finite.signedUnits_eq_zero_iff, hv]
  obtain ⟨negative, rank, hrank⟩ := v
  obtain ⟨negative', rank', hrank'⟩ := w
  have hboth : negative = negative' ∧ units rank = units rank' := by
    cases negative <;> cases negative' <;>
      simp only [Finite.signedUnits, Finite.magnitude, Bool.false_eq_true, if_true, if_false]
        at h hne <;> simp <;> omega
  obtain ⟨rfl, hunits⟩ := hboth
  obtain rfl := units_strictMono.injective hunits
  rfl

/-- Values are written alike exactly if they are equal as numbers. -/
theorem resultText_eq_iff {v w : Finite} :
    resultText v = resultText w ↔ v.signedUnits = w.signedUnits := by
  have hread : ∀ x : Finite,
      (if x.isZero then Finite.positiveZero else x).signedUnits = x.signedUnits := by
    intro x
    cases hx : x.isZero with
    | true =>
      rw [if_pos rfl, Finite.signedUnits_eq_zero_iff.mpr hx]
      rfl
    | false => rfl
  constructor
  · intro h
    have heval := (evaluate_resultText v).symm.trans (h ▸ evaluate_resultText w)
    rw [← hread v, Except.ok.inj heval, hread w]
  · intro h
    cases hv : v.isZero with
    | true =>
      have hw : w.isZero = true := by
        rw [← Finite.signedUnits_eq_zero_iff, ← h, Finite.signedUnits_eq_zero_iff, hv]
      rw [resultText, resultText, if_pos hv, if_pos hw]
    | false => rw [Finite.eq_of_signedUnits_eq h hv]

/-- A zero is written without a sign. -/
theorem resultText_ne_minus_zero (v : Finite) : resultText v ≠ "-0" := by
  intro h
  have hread : Expression.evaluate "-0" = .ok Finite.positiveZero := by decide +kernel
  have hzero : v.isZero = true := by
    by_contra hv
    have heval := evaluate_resultText v
    rw [h, hread, if_neg hv] at heval
    rw [← Except.ok.inj heval] at hv
    exact hv rfl
  rw [resultText, if_pos hzero] at h
  exact absurd h (by decide)

/-- **Results are canonical and lose nothing.** The text of a finite value is of the canonical form,
never that of a negative zero, and has no exponent. It evaluates to the value, a zero to the
positive one, and two values have the same text exactly if they are equal as numbers. A whole number
is written without a point, and below `10 ^ 15` as an integer. -/
theorem resultText_canonical (v : Finite) :
    (resultText v).toList ∈ resultForm.matches' ∧ resultText v ≠ "-0" ∧
      (∀ c ∈ (resultText v).toList, c ≠ 'e' ∧ c ≠ 'E') ∧
      Expression.evaluate (resultText v) = .ok (if v.isZero then Finite.positiveZero else v) ∧
      (∀ w : Finite, resultText v = resultText w ↔ v.signedUnits = w.signedUnits) ∧
      ∀ n : Int, v.signedUnits = n * unitsPerOne →
        '.' ∉ (resultText v).toList ∧ (n.natAbs < 10 ^ 15 → resultText v = toString n) := by
  refine ⟨resultText_mem_matches v, resultText_ne_minus_zero v, fun c hc => ?_,
    evaluate_resultText v, fun w => resultText_eq_iff, fun n hn => ?_⟩
  · have hkey := (Input.typable_resultText v).keys c hc
    constructor <;> rintro rfl <;> exact absurd hkey (by decide)
  · obtain ⟨hpoint, hinteger⟩ := resultText_of_whole hn
    have hroom : 10 ^ 15 < 2 * Numeric.Binary64.fractionCount := by decide
    exact ⟨hpoint, fun hsmall => hinteger (hsmall.trans hroom)⟩

end DeskCalculator
