import DeskCalculator.Expression.Evaluation
import DeskCalculator.Numeric.Shortest

/-!
# DeskCalculator.Calculation

The calculator as its users see it: from the text of an expression to the text of its result.

* **Results are rounded** to twelve decimal places, so that the noise of binary fractions does not
  show. What is rounded is the shortest decimal of the value, a half goes away from zero, and the
  result is the binary number nearest to the rounded decimal.
* **Results are written** with the fewest digits that read back, in positional notation however
  large or small, so that a result can be typed in again. Zero has no sign.
* **Expressions are strings.** A line may hold a surrogate without its partner, if it was read from
  a file; such a text is refused for the first character that stands in no expression, which is the
  surrogate at the latest.
-/

namespace DeskCalculator

open Numeric (Binary64)
open Expression (Failure FailureKind)

/-- How many decimal places a result has at most. -/
def resultPlaces : Nat := 12

/-- A value rounded to the places of a result. -/
def roundedResult (x : Binary64.Finite) : Binary64 :=
  Binary64.ofDecimal x.negative
    ⟨(Binary64.shortest x.rank).roundTo resultPlaces, -(resultPlaces : Int)⟩

/-- The text of a result. -/
def resultText (x : Binary64.Finite) : String :=
  if x.isZero then "0"
  else
    let digits := (Binary64.shortest x.rank).positional
    String.ofList (if x.negative then '-' :: digits else digits)

/-- The result of an expression, or why it has none. -/
def calculate (expression : String) : Except Failure String :=
  (Expression.evaluate expression).bind fun x =>
    match roundedResult x with
    | .finite y => .ok (resultText y)
    | _ => .error .notFinite

/-- What comes of a calculation: a result, or the kind and the message of its failure. -/
inductive Outcome
  /-- The expression has this result. -/
  | success (value : String)
  /-- The expression has none, for this reason. -/
  | failure (kind : FailureKind) (message : String)
  deriving DecidableEq, Repr

namespace Outcome

/-- Whether there is a result. -/
def ok : Outcome → Bool
  | success _ => true
  | failure .. => false

/-- The result, if there is one. -/
def value? : Outcome → Option String
  | success value => some value
  | failure .. => none

/-- The kind of the failure, if there is no result. -/
def kind? : Outcome → Option FailureKind
  | success _ => none
  | failure kind _ => some kind

/-- What to tell a person about a failure; nothing about a success. -/
def message : Outcome → String
  | success _ => ""
  | failure _ message => message

end Outcome

/-- Calculates the result of an expression, and keeps the reason if there is none. -/
def Outcome.ofExpression (expression : String) : Outcome :=
  match calculate expression with
  | .ok value => .success value
  | .error cause => .failure cause.kind cause.message

/-- Calculates the result of a text. Scanning refuses its first surrogate, unless it has refused a
character before that. -/
def Outcome.ofText (text : LooseText) : Outcome :=
  match text.firstSurrogate? with
  | none => ofExpression text.start
  | some surrogate =>
    match Expression.tokenize text.start with
    | .error cause => .failure cause.kind cause.message
    | .ok _ =>
      let cause := Failure.invalidCharacter (.surrogate surrogate)
      .failure cause.kind cause.message

theorem Outcome.ofExpression_eq_success_iff {expression value : String} :
    Outcome.ofExpression expression = .success value ↔ calculate expression = .ok value := by
  unfold Outcome.ofExpression
  split <;> simp_all

@[simp] theorem Outcome.ofText_ofString (expression : String) :
    Outcome.ofText expression = Outcome.ofExpression expression := by
  rw [ofText, LooseText.firstSurrogate?_ofString, LooseText.start_ofString]

/-- Only strings have results. -/
theorem Outcome.ofText_eq_success_iff {text : LooseText} {value : String} :
    Outcome.ofText text = .success value ↔
      ∃ expression : String, text = expression ∧
        Outcome.ofExpression expression = .success value := by
  constructor
  · intro h
    cases hsurrogate : text.firstSurrogate? with
    | none =>
      have htext := LooseText.eq_ofString_start hsurrogate
      rw [htext, ofText_ofString] at h
      exact ⟨text.start, htext, h⟩
    | some surrogate =>
      -- both ways to refuse the surrogate are failures
      simp only [ofText, hsurrogate] at h
      split at h <;> exact absurd h (by simp)
  · rintro ⟨expression, rfl, h⟩
    rwa [ofText_ofString]

end DeskCalculator
