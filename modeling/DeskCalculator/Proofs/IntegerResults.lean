import DeskCalculator.Proofs.Numeric.WholeArithmetic
import DeskCalculator.Proofs.Recalculation

/-!
# DeskCalculator.Proofs.IntegerResults

Integer arithmetic is exact up to `2 ^ 53`.

* **Exact values** (`Operand.exactValue?`) are integers of any size, from an evaluator of its own
  next to the one on binary numbers. It knows neither points nor quotients, and gives up where a
  number or a value on the way is above a bound.
* **Each node is exact** (`Operator.exists_apply_of_onIntegers?`), so a tree with an exact value
  evaluates to it, by induction on the tree (`Operand.exists_value_of_exactValue?`). A zero may come
  out negative on the way.
* **The result is the integer's numeral.** Rounding to places does not change a whole number
  (`roundedResult_of_whole`).

Main statement: `Outcome.ofExpression_of_integers`, for every text of every such tree.
-/

namespace DeskCalculator

open Numeric (Binary64)
open Numeric.Binary64 (Finite fractionCount unitsPerOne)

namespace Expression

/-! ### Exact values -/

/-- The integer itself, if its magnitude is not above the bound. -/
def atMost? (bound : Nat) (n : Int) : Option Int := Option.guard (·.natAbs ≤ bound) n

theorem atMost?_eq_some_iff {bound : Nat} {m n : Int} :
    atMost? bound m = some n ↔ m = n ∧ n.natAbs ≤ bound := by
  rw [atMost?, Option.guard_eq_some_iff, decide_eq_true_iff]
  exact and_congr_right fun heq => by rw [heq]

/-- What an operator makes of two integers, if that is an integer whatever they are. -/
def Operator.onIntegers? : Operator → Int → Int → Option Int
  | .plus, m, n => some (m + n)
  | .minus, m, n => some (m - n)
  | .times, m, n => some (m * n)
  | .divide, _, _ => none

/-- The exact value of an operand that consists of digits, plus, minus and times, if neither a
number in it nor a value on the way is above the bound. -/
def Operand.exactValue? (bound : Nat) : Operand → Option Int
  | number text =>
    if text ≠ "" ∧ text.toList.all Char.isDigit then
      atMost? bound (Nat.ofDigitChars 10 text.toList 0)
    else none
  | percent _ => none
  | operation op _ a b =>
    (a.exactValue? bound).bind fun m => (b.exactValue? bound).bind fun n =>
      (op.onIntegers? m n).bind (atMost? bound)

/-! ### Exact steps -/

/-- Digits are read as the integer that they denote. -/
theorem exists_readNumber_of_digits {text : String} (hne : text ≠ "")
    (hdigits : ∀ c ∈ text.toList, c.isDigit = true)
    (hbound : Nat.ofDigitChars 10 text.toList 0 ≤ 2 * fractionCount) :
    ∃ z, readNumber text = .ok z ∧ z.IsInteger (Nat.ofDigitChars 10 text.toList 0) := by
  have hnil : text.toList ≠ [] := fun h => hne (String.toList_eq_nil_iff.mp h)
  have htext := Numeric.Numeral.ofText?_digits hnil hdigits
  obtain ⟨x, hx, hinteger⟩ := Numeric.Binary64.isInteger_ofDecimal hbound
  exact ⟨.finite x, readNumber_of_ofText? htext hx, x, rfl, hinteger⟩

/-- An operator on integers has the exact result, if that is not too large. -/
theorem Operator.exists_apply_of_onIntegers? {op : Operator} {x y : Binary64} {m n k : Int}
    (hx : x.IsInteger m) (hy : y.IsInteger n) (h : op.onIntegers? m n = some k)
    (hbound : k.natAbs ≤ 2 * fractionCount) : ∃ z, op.apply x y = .ok z ∧ z.IsInteger k := by
  cases op with
  | plus =>
    obtain rfl : m + n = k := Option.some.inj h
    exact ⟨_, rfl, hx.add hy hbound⟩
  | minus =>
    obtain rfl : m - n = k := Option.some.inj h
    exact ⟨_, rfl, hx.sub hy hbound⟩
  | times =>
    obtain rfl : m * n = k := Option.some.inj h
    exact ⟨_, rfl, hx.mul hy hbound⟩
  | divide => simp [onIntegers?] at h

/-- An operand with an exact value within the bound has that value. -/
theorem Operand.exists_value_of_exactValue? {bound : Nat} (hbound : bound ≤ 2 * fractionCount)
    {a : Operand} {n : Int} (h : a.exactValue? bound = some n) :
    n.natAbs ≤ bound ∧ ∃ z, a.value = .ok z ∧ z.IsInteger n := by
  induction a generalizing n with
  | number text =>
    rw [exactValue?, Option.ite_none_right_eq_some, atMost?_eq_some_iff] at h
    obtain ⟨⟨hne, hdigits⟩, rfl, hn⟩ := h
    exact ⟨hn, exists_readNumber_of_digits hne (List.all_eq_true.mp hdigits) (hn.trans hbound)⟩
  | percent a => simp [exactValue?] at h
  | operation op unary a b iha ihb =>
    simp only [exactValue?, Option.bind_eq_some_iff] at h
    obtain ⟨l, hl, m, hm, k, hk, hatMost⟩ := h
    obtain ⟨rfl, hn⟩ := atMost?_eq_some_iff.mp hatMost
    obtain ⟨-, x, hx, hxl⟩ := iha hl
    obtain ⟨-, y, hy, hym⟩ := ihb hm
    obtain ⟨z, hz, hzk⟩ := op.exists_apply_of_onIntegers? hxl hym hk (hn.trans hbound)
    refine ⟨hn, z, ?_, hzk⟩
    rw [value, hx, hy]
    exact hz

end Expression

/-! ### Results -/

open Expression

/-- Rounding to places does not change a whole number. -/
theorem roundedResult_of_whole {x : Finite} {n : Int} (hx : x.signedUnits = n * unitsPerOne) :
    roundedResult x = .finite x := by
  refine roundedResult_eq_self ?_
  obtain hzero | hpos := Nat.eq_zero_or_pos x.rank
  · rw [hzero]
    decide
  · obtain ⟨hunits, -⟩ := Finite.eq_of_signedUnits_eq_mul hx
    have hplaces := Numeric.Binary64.exponent_shortest_of_whole hpos
      (Numeric.Binary64.rankValue_of_units_eq hunits)
    exact hplaces.trans' (by decide)

/-- **Integer arithmetic is exact.** A text of a tree of digits, parentheses, signs, plus, minus and
times, in which no number and no exact value on the way is above `2 ^ 53`, has the numeral of the
exact value as its result. -/
theorem Outcome.ofExpression_of_integers {d : Derivation .sum} {n : Int}
    (hexact : d.toOperand.exactValue? (2 ^ 53) = some n) {expression : String}
    (htext : Renders d.lexemes expression.toList) :
    Outcome.ofExpression expression = .success (toString n) := by
  obtain ⟨hn, z, hvalue, x, rfl, hx⟩ := Operand.exists_value_of_exactValue? (by decide) hexact
  have heval : evaluate expression = .ok x := by
    rw [evaluate_of_renders htext, ← d.value_toOperand, hvalue, bind_ok, requireFinite_finite]
  rw [Outcome.ofExpression_eq_success_iff, calculate_eq_ok_iff]
  exact ⟨x, x, heval, roundedResult_of_whole hx, resultText_eq_toString hx hn⟩

/-- The tree of zero times minus five, less a group of two and `2 ^ 53 - 2`. -/
def differenceOfProductAndGroup : Derivation .sum :=
  .add (.product (.mul (.signed (.operand (.number ⟨"0", by decide, List.all_eq_true.mp rfl⟩)))
      .times rfl
      (.sign .minus isSign_minus
        (.operand (.number ⟨"5", by decide, List.all_eq_true.mp rfl⟩)))))
    .minus isSign_minus
    (.signed (.operand (.group
      (.add (.product (.signed (.operand (.number ⟨"2", by decide, List.all_eq_true.mp rfl⟩))))
        .plus isSign_plus
        (.signed (.operand
          (.number ⟨"9007199254740990", by decide, List.all_eq_true.mp rfl⟩)))))))

/-- A negative zero on the way, and a result that is as large as it may be. -/
theorem Outcome.ofExpression_of_integers_of_difference :
    differenceOfProductAndGroup.toOperand.exactValue? (2 ^ 53) = some (-9007199254740992) ∧
      Renders differenceOfProductAndGroup.lexemes "0 * -5 - (2+9007199254740990)".toList ∧
      Outcome.ofExpression "0 * -5 - (2+9007199254740990)" = .success "-9007199254740992" := by
  have hblank : [' '].all Text.isBlank = true := by decide
  have hexact : differenceOfProductAndGroup.toOperand.exactValue? (2 ^ 53) =
      some (-9007199254740992) := by decide +kernel
  have htext : Renders differenceOfProductAndGroup.lexemes
      "0 * -5 - (2+9007199254740990)".toList :=
    .lexeme <| .cons hblank <| .cons hblank <| .lexeme <| .cons hblank <| .cons hblank <|
      .lexeme <| .lexeme <| .lexeme <| .lexeme <| .empty
  exact ⟨hexact, htext, Outcome.ofExpression_of_integers hexact htext⟩

/-- One more than `2 ^ 53` is no value, so the bound cannot be raised. -/
example : Outcome.ofExpression "1+9007199254740992" = .success "9007199254740992" := by
  decide +kernel

end DeskCalculator
