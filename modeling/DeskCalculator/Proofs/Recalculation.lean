import DeskCalculator.Proofs.Expression.Meaning
import DeskCalculator.Proofs.Numeric.ExactSteps
import DeskCalculator.Proofs.Numeric.NumeralText
import DeskCalculator.Proofs.Numeric.ShortestDecimal

/-!
# DeskCalculator.Proofs.Recalculation

A result can be typed in again and is its own result.

* **Rounding happens once.** A rounded value has a shortest decimal with at most twelve places, so
  rounding it again changes nothing (`roundedResult_eq_self`).
* **A result is an expression.** The text of a value is a number, or a minus sign and a number; its
  tree means the value, but for the sign of zero (`evaluate_resultText`).

Main statement: `Outcome.ofExpression_of_success`, for every expression with a result.
-/

namespace DeskCalculator

open Numeric (Binary64 Decimal)
open Numeric.Binary64 (Finite shortest)
open Expression

/-! ### Rounding again -/

/-- A rounded value has a shortest decimal with no more places than a result. -/
theorem neg_resultPlaces_le_of_roundedResult {x y : Finite} (h : roundedResult x = .finite y) :
    -(resultPlaces : Int) ≤ (shortest y.rank).exponent := by
  obtain ⟨-, hrank⟩ := Numeric.Binary64.ofDecimal_eq_finite_iff.mp h
  by_cases hzero : y.rank = 0
  · rw [hzero]
    decide
  · exact Numeric.Binary64.neg_twelve_le_exponent_shortest (Nat.pos_of_ne_zero hzero) hrank.symm

/-- A value whose shortest decimal has no more places than a result is not changed by rounding. -/
theorem roundedResult_eq_self {y : Finite}
    (h : -(resultPlaces : Int) ≤ (shortest y.rank).exponent) : roundedResult y = .finite y := by
  have hrank : (⟨(shortest y.rank).roundTo resultPlaces, -(resultPlaces : Int)⟩ :
      Decimal).nearestRank = y.rank :=
    (Decimal.nearestRank_congr (Decimal.value_roundTo h)).trans
      (Numeric.Binary64.nearestRank_shortest y.rank)
  exact Numeric.Binary64.ofDecimal_eq_finite_iff.mpr ⟨rfl, hrank.symm⟩

/-! ### A result as an expression -/

/-- A decimal in positional notation is a number of an expression. -/
def positionalNumber (d : Decimal) : NumberText where
  text := String.ofList d.positional
  ne_empty := by
    intro h
    exact d.positional_ne_nil (by simpa using congrArg String.toList h)
  isNumberChar_of_mem := by
    intro c hc
    exact isNumberChar_iff.mpr (d.isNumeralChar_of_mem_positional c (by simpa using hc))

/-- The number that the shortest decimal of a rank is read as. -/
theorem readNumber_positional {rank : Nat} (hrank : rank < Numeric.Binary64.rankBound) :
    readNumber (positionalNumber (shortest rank)).text = .ok (.finite ⟨false, rank, hrank⟩) := by
  obtain ⟨d, htext, hvalue⟩ := (shortest rank).exists_ofText?_positional
  have hread : d.nearestRank = rank :=
    (Decimal.nearestRank_congr hvalue).trans (Numeric.Binary64.nearestRank_shortest rank)
  have hnumeral : Numeric.Binary64.ofNumeral ⟨false, d⟩ = .finite ⟨false, rank, hrank⟩ :=
    Numeric.Binary64.ofDecimal_eq_finite_iff.mpr ⟨rfl, hread.symm⟩
  refine readNumber_of_ofText? ?_ hnumeral
  rw [positionalNumber, String.toList_ofList, htext]

theorem isSign_plus : Operator.plus.isSign = true := rfl

theorem isSign_minus : Operator.minus.isSign = true := rfl

/-- The tree of the text of a value. -/
def resultTree (y : Finite) : Derivation .sum :=
  let number : Derivation .signed := .operand (.number (positionalNumber (shortest y.rank)))
  .product (.signed (if y.negative && !y.isZero then .sign .minus isSign_minus number else number))

/-- The text of a value is a text of its tree. -/
theorem renders_resultText (y : Finite) :
    Renders (resultTree y).lexemes (resultText y).toList := by
  have hnumber : Renders [.number (positionalNumber (shortest y.rank))]
      (shortest y.rank).positional := by
    have hlexeme := @Renders.lexeme (.number (positionalNumber (shortest y.rank))) [] [] .empty
    simpa [Lexeme.chars, positionalNumber] using hlexeme
  by_cases hzero : y.isZero = true
  · have hrank := Finite.isZero_iff.mp hzero
    have htext : (resultText y).toList = (shortest y.rank).positional := by
      rw [resultText, if_pos hzero, hrank]
      decide
    rw [htext]
    simpa [resultTree, hzero, Derivation.lexemes] using hnumber
  · cases hneg : y.negative with
    | false =>
      have htext : (resultText y).toList = (shortest y.rank).positional := by
        simp [resultText, hzero, hneg]
      rw [htext]
      simpa [resultTree, hneg, Derivation.lexemes] using hnumber
    | true =>
      have htext : (resultText y).toList = '-' :: (shortest y.rank).positional := by
        simp [resultText, hzero, hneg]
      have hsigned := @Renders.lexeme (.operator .minus) _ _ hnumber
      rw [htext]
      simpa [resultTree, hneg, hzero, Derivation.lexemes, Lexeme.chars, Operator.symbol]
        using hsigned

/-- The tree of the text of a value means the value, but zero has lost its sign. -/
theorem value_resultTree (y : Finite) :
    (resultTree y).value = .ok (.finite (if y.isZero then Finite.positiveZero else y)) := by
  have hnumber := readNumber_positional y.rank_lt
  by_cases hzero : y.isZero = true
  · have hrank := Finite.isZero_iff.mp hzero
    have hnull := @readNumber_positional 0 (by decide)
    simpa [resultTree, hzero, Derivation.value, Finite.positiveZero, hrank] using hnull
  · cases hneg : y.negative with
    | false =>
      have hself : (⟨false, y.rank, y.rank_lt⟩ : Finite) = y := by
        rw [← hneg]
      simp [resultTree, hneg, hzero, Derivation.value, hnumber, hself]
    | true =>
      have hself : (⟨false, y.rank, y.rank_lt⟩ : Finite).neg = y := by
        rw [Finite.neg, Bool.not_false, ← hneg]
      have hrank : (⟨false, y.rank, y.rank_lt⟩ : Finite).isZero = false := by
        simpa [Finite.isZero] using hzero
      simp [resultTree, hneg, hzero, Derivation.value, Derivation.nodeValue, hnumber,
        Operator.apply, Numeric.Binary64.zero_sub, hrank, hself]

/-- The text of a value has that value, but zero has lost its sign. -/
theorem evaluate_resultText (y : Finite) :
    evaluate (resultText y) = .ok (if y.isZero then Finite.positiveZero else y) := by
  rw [evaluate_of_renders (renders_resultText y), value_resultTree, bind_ok, requireFinite_finite]

/-! ### Results are fixed points -/

theorem fractionPart_resultText_le {y : Finite}
    (h : -(resultPlaces : Int) ≤ (shortest y.rank).exponent) :
    (Decimal.fractionPart (resultText y).toList).length ≤ resultPlaces := by
  have hplaces : (Decimal.fractionPart (shortest y.rank).positional).length ≤ resultPlaces := by
    rw [Decimal.length_fractionPart_positional]
    omega
  unfold resultText
  split
  · decide
  · cases y.negative with
    | false => simpa using hplaces
    | true => simpa [Decimal.fractionPart] using hplaces

/-- The text of a rounded value is calculated to itself. -/
theorem calculate_resultText {y : Finite}
    (h : -(resultPlaces : Int) ≤ (shortest y.rank).exponent) :
    calculate (resultText y) = .ok (resultText y) := by
  have heval := evaluate_resultText y
  by_cases hzero : y.isZero = true
  · have hnull : Finite.positiveZero.isZero = true := rfl
    have hrounded : roundedResult Finite.positiveZero = .finite Finite.positiveZero :=
      roundedResult_eq_self (by decide)
    rw [if_pos hzero] at heval
    refine calculate_eq_ok_iff.mpr ⟨_, _, heval, hrounded, ?_⟩
    rw [resultText, resultText, if_pos hnull, if_pos hzero]
  · rw [if_neg hzero] at heval
    exact calculate_eq_ok_iff.mpr ⟨_, _, heval, roundedResult_eq_self h, rfl⟩

/-- **Results are fixed points.** The result of an expression is an expression that has itself as
its result, and it has at most twelve digits after the point. -/
theorem Outcome.ofExpression_of_success {expression result : String}
    (h : Outcome.ofExpression expression = .success result) :
    Outcome.ofExpression result = .success result ∧
      (Decimal.fractionPart result.toList).length ≤ 12 := by
  obtain ⟨x, y, -, hrounded, rfl⟩ :=
    calculate_eq_ok_iff.mp (Outcome.ofExpression_eq_success_iff.mp h)
  have hplaces := neg_resultPlaces_le_of_roundedResult hrounded
  exact ⟨Outcome.ofExpression_eq_success_iff.mpr (calculate_resultText hplaces),
    fractionPart_resultText_le hplaces⟩

/-- A third, taken away from zero: twelve places, and a sign. -/
theorem Outcome.ofExpression_of_success_of_third :
    Outcome.ofExpression "-1/3" = .success "-0.333333333333" ∧
      Outcome.ofExpression "-0.333333333333" = .success "-0.333333333333" ∧
      (Decimal.fractionPart "-0.333333333333".toList).length ≤ 12 := by
  have hthird : Outcome.ofExpression "-1/3" = .success "-0.333333333333" := by decide +kernel
  exact ⟨hthird, Outcome.ofExpression_of_success hthird⟩

end DeskCalculator
