import DeskCalculator.Proofs.Expression.Alphabet
import DeskCalculator.Proofs.Expression.Composition
import DeskCalculator.Proofs.Recalculation

/-!
# DeskCalculator.Proofs.Continuation

A result can be continued: an operator and any text after it mean the same whether the result stands
in parentheses or not.

* **Scanning** goes on after an operator as at the start of a text, whatever stood before it, and
  is refused for the same character (`Scan.run_after_eq`).
* **Ordering** is in the same state after an operator whose left operand is a number with or without
  signs, or a group: the signs bind tighter than every binary operator, so they are written before
  the operator waits (`Yard.run_tokens_operator`).

So the two evaluations differ in nothing after the operator, and fail alike if they fail. Main
statement: `Outcome.ofExpression_continued`, for every result and all texts.
-/

namespace DeskCalculator

namespace Expression

/-- An operator after a text, and any further text. -/
def continueText (s : String) (op : Operator) (t : String) : String :=
  s ++ String.singleton op.symbol ++ t

/-! ### Scanning -/

/-- After tokens that await an operand a text is scanned as it is by itself, or refused for the same
character. -/
theorem Scan.run_after_eq {pre : Array Token} (hpre : awaitsOperand pre = true) (s : Scan)
    (text : List Char) : (s.after pre).run text = (s.run text).map (Scan.after pre) := by
  cases hrun : s.run text with
  | ok s' => exact run_after hpre hrun
  | error cause =>
    -- a refusal depends on the text alone
    rw [run_eq_error_iff] at hrun
    exact run_eq_error_iff.mpr hrun

/-- No operand is awaited at the end of tokens that alternate. -/
theorem elim_getLast?_of_alternates {awaiting : Bool} {ts : List Token}
    (h : alternates awaiting ts = true) : ts.getLast?.elim awaiting Token.awaitsNext = false := by
  induction ts generalizing awaiting with
  | nil => simpa [alternates] using h
  | cons t ts ih =>
    rw [alternates, Bool.and_eq_true] at h
    have hrest := ih h.2
    rw [List.getLast?_cons]
    cases hlast : ts.getLast? with
    | none => simpa [hlast] using hrest
    | some last => simpa [hlast] using hrest

/-- An operator after an operand is binary, and what follows it is scanned by itself. -/
theorem tokenize_continueText {s : String} {ts : List Token} (hs : tokenize s = .ok ts)
    (ha : alternates true ts = true) (op : Operator) (t : String) :
    tokenize (continueText s op t) = (tokenize t).map (ts ++ .operator op false :: ·) := by
  obtain ⟨s₁, hrun, rfl⟩ := tokenize_eq_ok_iff.mp hs
  have hawaits : awaitsOperand s₁.close = false := by
    rw [awaitsOperand_eq]
    have helim := elim_getLast?_of_alternates ha
    cases hlast : s₁.close.toList.getLast? with
    | none => simp [hlast] at helim
    | some last => simpa [hlast] using helim
  have hstep : s₁.step op.symbol = .ok (Scan.empty.after (s₁.close.push (.operator op false))) := by
    rw [Scan.step_symbol, Scan.pushOperator, hawaits, Bool.and_false, if_neg (by decide)]
    rfl
  have hpush : awaitsOperand (s₁.close.push (.operator op false)) = true := by
    rw [awaitsOperand_push]
    rfl
  rw [tokenize, tokenize, continueText, String.toList_append, String.toList_append,
    String.toList_singleton, List.append_assoc, List.singleton_append, Scan.run_append, hrun,
    bind_ok, Scan.run_cons, hstep, bind_ok, Scan.run_after_eq hpush]
  cases Scan.empty.run t.toList with
  | error cause => rfl
  | ok s₂ => simp [Scan.close_after]

/-! ### Ordering -/

/-- An operator that arrives after a signed operand finds all of it written. -/
theorem Yard.run_tokens_operator (d : Derivation .signed) (op : Operator) :
    Yard.empty.run (d.tokens ++ [.operator op false]) =
      .ok ⟨d.postOrder.toArray, [.operator op false]⟩ := by
  have hlevel : op.level false ≤ Category.signed.level := by cases op <;> decide
  obtain ⟨s₁, hrun, hadvances⟩ := orders_tokens d Yard.empty fun hlt => absurd hlt (by decide)
  obtain ⟨s₂, hstep, hout, hstack⟩ := (hadvances.mono hlevel).step_operator rfl
  rw [run_append, hrun, bind_ok, run_cons, hstep]
  exact congrArg Except.ok (eq_of_toList (by simpa [Yard.empty] using hout) hstack)

/-- What follows the operator is ordered without regard to how the operand was spelled. -/
theorem evaluationOrder_operator (d : Derivation .signed) (op : Operator) (us : List Token) :
    evaluationOrder (d.tokens ++ .operator op false :: us) =
      ((⟨d.postOrder.toArray, [.operator op false]⟩ : Yard).run us).bind Yard.close := by
  have hsplit : d.tokens ++ .operator op false :: us =
      (d.tokens ++ [.operator op false]) ++ us := by simp
  rw [evaluationOrder, hsplit, Yard.run_append Yard.empty (d.tokens ++ [_]) us,
    Yard.run_tokens_operator, bind_ok]

/-! ### Signed operands in parentheses -/

/-- A signed operand in parentheses. -/
def Derivation.grouped (d : Derivation .signed) : Derivation .signed :=
  .operand (.group (.product (.signed d)))

@[simp] theorem Derivation.postOrder_grouped (d : Derivation .signed) :
    d.grouped.postOrder = d.postOrder := rfl

/-- **A signed operand needs no parentheses before an operator**, whatever follows. -/
theorem evaluate_continueText_group {d : Derivation .signed} {s : String}
    (hs : tokenize s = .ok d.tokens) (op : Operator) (t : String) :
    evaluate (continueText s op t) = evaluate (continueText (groupText s) op t) := by
  have hgroup : tokenize (groupText s) = .ok d.grouped.tokens := tokenize_group hs
  have halternates : ∀ d : Derivation .signed, alternates true d.tokens = true :=
    fun d => d.alternates_tokens
  rw [evaluate, evaluate, tokenize_continueText hs (halternates d),
    tokenize_continueText hgroup (halternates d.grouped)]
  cases tokenize t with
  | error cause => rfl
  | ok us =>
    rw [map_ok, map_ok, bind_ok, bind_ok, evaluationOrder_operator, evaluationOrder_operator,
      Derivation.postOrder_grouped]

end Expression

open Expression

/-! ### Results -/

/-- The text of a value has the tokens of a signed operand. -/
theorem exists_tokenize_resultText (y : Numeric.Binary64.Finite) :
    ∃ d : Derivation .signed, tokenize (resultText y) = .ok d.tokens :=
  ⟨_, tokenize_of_renders_derivation (renders_resultText y)⟩

/-- **To continue from a result is to continue from its value.** An operator after a result, and any
text after the operator, come to the same outcome as with the result in parentheses: the same value,
or the same failure with the same message. -/
theorem Outcome.ofExpression_continued {expression result : String}
    (h : Outcome.ofExpression expression = .success result) (op : Operator) (t : String) :
    Outcome.ofExpression (result ++ String.singleton op.symbol ++ t) =
      Outcome.ofExpression ("(" ++ result ++ ")" ++ String.singleton op.symbol ++ t) := by
  obtain ⟨x, y, -, -, rfl⟩ := calculate_eq_ok_iff.mp (Outcome.ofExpression_eq_success_iff.mp h)
  obtain ⟨d, hd⟩ := exists_tokenize_resultText y
  exact Outcome.ofExpression_congr (evaluate_continueText_group hd op t)

/-- A negative result, continued by a percentage and by a text that is no expression. -/
theorem Outcome.ofExpression_continued_of_negative :
    Outcome.ofExpression "1-3" = .success "-2" ∧
      Outcome.ofExpression "-2/4%" = Outcome.ofExpression "(-2)/4%" ∧
      Outcome.ofExpression "-2*3)(" = Outcome.ofExpression "(-2)*3)(" := by
  have h : Outcome.ofExpression "1-3" = .success "-2" := by decide +kernel
  exact ⟨h, Outcome.ofExpression_continued h .divide "4%",
    Outcome.ofExpression_continued h .times "3)("⟩

end DeskCalculator
