import DeskCalculator.Proofs.Expression.Composition
import DeskCalculator.Proofs.ResultForm
import DeskCalculator.Proofs.Rounding

/-!
# DeskCalculator.Proofs.SignSymmetry

A sign before an expression in parentheses does to its result what it says.

* **Values.** Taking a value away from zero changes its sign, and adding it to zero changes nothing,
  except that a zero comes out positive (`evaluate_minus_group`, `evaluate_plus_group`).
* **Rounding** looks at the magnitude alone and keeps the sign (`roundedResult_neg`), a half going
  away from zero on both sides of it.
* **Writing** puts a minus sign before the magnitude of a negative value and knows no negative zero
  (`resultText_neg`), so it does not matter how a zero came out.

Main statement: `Outcome.ofExpression_signed`, for every expression with a result.
-/

namespace DeskCalculator

open Numeric (Decimal)
open Numeric.Binary64 (Finite)
open Expression

/-! ### Texts of opposite values -/

/-- The text of the opposite number: zero is its own opposite, a minus sign is dropped, and a text
without one gets one. -/
def oppositeText (text : String) : String :=
  if text = "0" then "0"
  else
    match text.toList with
    | '-' :: magnitude => String.ofList magnitude
    | magnitude => String.ofList ('-' :: magnitude)

theorem resultText_of_isZero {y : Finite} (h : y.isZero = true) : resultText y = "0" :=
  if_pos h

/-- Only a zero is written as zero. -/
theorem resultText_ne_zero {y : Finite} (h : y.isZero = false) : resultText y ≠ "0" := by
  intro heq
  have hnull : resultText .positiveZero = "0" := resultText_of_isZero rfl
  have hunits := resultText_eq_iff.mp (heq.trans hnull.symm)
  rw [Finite.signedUnits_eq_zero_iff.mp hunits] at h
  exact absurd h (by decide)

/-- A magnitude is written without a sign. -/
theorem positional_ne_minus (d : Decimal) (rest : List Char) : d.positional ≠ '-' :: rest := by
  intro heq
  have hminus := d.isNumeralChar_of_mem_positional '-' (by simp [heq])
  have hne : '-' ≠ '-' := hminus.ne_of_toNat (by decide)
  exact hne rfl

/-- The opposite value has the opposite text. -/
theorem resultText_neg (y : Finite) : resultText y.neg = oppositeText (resultText y) := by
  have hneg : y.neg.isZero = y.isZero := rfl
  cases hzero : y.isZero with
  | true =>
    rw [resultText_of_isZero (hneg.trans hzero), resultText_of_isZero hzero]
    rfl
  | false =>
    have hrank : y.neg.rank = y.rank := rfl
    have hsign : y.neg.negative = !y.negative := rfl
    rw [oppositeText, if_neg (resultText_ne_zero hzero), resultText, resultText, hneg, hzero,
      if_neg (by decide), if_neg (by decide), String.toList_ofList, hrank, hsign]
    cases y.negative with
    | true => rfl
    | false =>
      simp only [Bool.not_false, if_true, Bool.false_eq_true, if_false]
      split
      · rename_i rest heq
        exact absurd heq (positional_ne_minus _ rest)
      · rfl

/-! ### Rounding -/

/-- Opposite values are rounded to opposite values. -/
theorem roundedResult_neg {x y : Finite} (h : roundedResult x = .finite y) :
    roundedResult x.neg = .finite y.neg := by
  obtain ⟨hsign, hrank⟩ := roundedResult_eq_finite_iff.mp h
  refine roundedResult_eq_finite_iff.mpr ⟨?_, hrank⟩
  show (!y.negative) = !x.negative
  rw [hsign]

/-- A zero is rounded to a zero. -/
theorem isZero_of_roundedResult {x y : Finite} (h : roundedResult x = .finite y)
    (hx : x.isZero = true) : y.isZero = true := by
  obtain ⟨-, hrank⟩ := roundedResult_eq_finite_iff.mp h
  rw [Finite.isZero_iff.mp hx, roundedRank_zero] at hrank
  exact Finite.isZero_iff.mpr hrank

/-! ### Signs before a group -/

/-- Zero comes out positive, and no one can tell from the text. -/
theorem calculate_of_evaluate {expression : String} {x y : Finite}
    (heval : evaluate expression = .ok (if x.isZero then .positiveZero else x))
    (hrounded : roundedResult x = .finite y) : calculate expression = .ok (resultText y) := by
  cases hx : x.isZero with
  | true =>
    rw [hx, if_pos rfl] at heval
    obtain ⟨z, hz⟩ := exists_roundedResult .positiveZero
    rw [resultText_of_isZero (isZero_of_roundedResult hrounded hx)]
    exact calculate_eq_ok_iff.mpr
      ⟨_, z, heval, hz, resultText_of_isZero (isZero_of_roundedResult hz rfl)⟩
  | false =>
    rw [hx, if_neg (by decide)] at heval
    exact calculate_eq_ok_iff.mpr ⟨x, y, heval, hrounded, rfl⟩

/-- A plus sign adds the value to zero. -/
theorem evaluate_plus_group {s : String} {x : Finite} (h : evaluate s = .ok x) :
    evaluate ("+" ++ groupText s) = .ok (if x.isZero then .positiveZero else x) := by
  have hsign := evaluate_sign .plus rfl h
  rw [Operator.apply, bind_ok, Numeric.Binary64.zero_add, requireFinite_finite] at hsign
  exact hsign

/-- A minus sign takes the value away from zero. -/
theorem evaluate_minus_group {s : String} {x : Finite} (h : evaluate s = .ok x) :
    evaluate ("-" ++ groupText s) = .ok (if x.neg.isZero then .positiveZero else x.neg) := by
  have hsign := evaluate_sign .minus rfl h
  rw [Operator.apply, bind_ok, Numeric.Binary64.zero_sub, requireFinite_finite] at hsign
  exact hsign

/-- **Signs are symmetric.** An expression with a result, in parentheses, has the opposite result
with a minus sign before it, and the same result with a plus sign. -/
theorem Outcome.ofExpression_signed {expression result : String}
    (h : Outcome.ofExpression expression = .success result) :
    Outcome.ofExpression ("-" ++ groupText expression) = .success (oppositeText result) ∧
      Outcome.ofExpression ("+" ++ groupText expression) = .success result := by
  obtain ⟨x, y, heval, hrounded, rfl⟩ :=
    calculate_eq_ok_iff.mp (Outcome.ofExpression_eq_success_iff.mp h)
  constructor
  · rw [← resultText_neg, Outcome.ofExpression_eq_success_iff]
    exact calculate_of_evaluate (evaluate_minus_group heval) (roundedResult_neg hrounded)
  · rw [Outcome.ofExpression_eq_success_iff]
    exact calculate_of_evaluate (evaluate_plus_group heval) hrounded

/-- Half a unit of the last place, from a text with a misplaced operator, and a negative value that
is rounded to zero. -/
theorem Outcome.ofExpression_signed_of_half :
    Outcome.ofExpression "5(0.0000000000001*)" = .success "0.000000000001" ∧
      Outcome.ofExpression "-(5(0.0000000000001*))" = .success "-0.000000000001" ∧
      Outcome.ofExpression "-0.0000000000004" = .success "0" ∧
      Outcome.ofExpression "-(-0.0000000000004)" = .success "0" := by
  have hhalf : Outcome.ofExpression "5(0.0000000000001*)" = .success "0.000000000001" := by
    decide +kernel
  have hless : Outcome.ofExpression "-0.0000000000004" = .success "0" := by decide +kernel
  exact ⟨hhalf, (Outcome.ofExpression_signed hhalf).1, hless, (Outcome.ofExpression_signed hless).1⟩

end DeskCalculator
