import DeskCalculator.Proofs.Expression.Meaning
import DeskCalculator.Proofs.Numeric.ExactSteps

/-!
# DeskCalculator.Proofs.Expression.Composition

A text with a value, put in parentheses, is an operand with that value, whatever the text looks
like. Each of the three stages is local there:

* **Scanning** looks back at one token only, and an opening parenthesis awaits an operand as the
  start of a text does (`Scan.run_group`).
* **Ordering** never looks below an opening parenthesis (`Yard.run_group`).
* **Computing** never looks below the values it starts from (`Stack.run_of_evaluateOrdered`).

The last two make tokens an operand (`ActsAs`), and operands can be joined.

Main statement: `evaluate_compose`, for all texts with a value and the four operators, percent and
minus signs, and parentheses alone.
-/

namespace DeskCalculator.Expression

open Numeric (Binary64)

/-! ### Groups in a text -/

/-- A text in parentheses. -/
def groupText (s : String) : String := "(" ++ s ++ ")"

@[simp] theorem toList_groupText (s : String) :
    (groupText s).toList = '(' :: (s.toList ++ [')']) := by
  simp [groupText]

/-- An operator between two texts in parentheses. -/
def joinText (op : Operator) (s t : String) : String :=
  groupText s ++ String.singleton op.symbol ++ groupText t

/-- The tokens of a text in parentheses. -/
def groupTokens (ts : List Token) : List Token := .leftParen :: (ts ++ [.rightParen])

namespace Scan

/-- A text in parentheses adds its tokens in parentheses, after whatever was read before. -/
theorem run_group {expression : String} {ts : List Token}
    (h : tokenize expression = .ok ts) (s : Scan) :
    ∃ tokens, s.run (groupText expression).toList = .ok ⟨tokens, ""⟩ ∧
      tokens.toList = s.close.toList ++ groupTokens ts ∧ awaitsOperand tokens = false := by
  obtain ⟨s₁, hrun, rfl⟩ := tokenize_eq_ok_iff.mp h
  have hawaits : awaitsOperand (s.close.push .leftParen) = true := by
    rw [awaitsOperand_push]
    rfl
  have hopen : s.step '(' = .ok (Scan.empty.after (s.close.push .leftParen)) := rfl
  have hclose : ∀ s₂ : Scan, s₂.step ')' = .ok ⟨s₂.close.push .rightParen, ""⟩ := fun _ => rfl
  refine ⟨(s₁.after (s.close.push .leftParen)).close.push .rightParen, ?_, ?_, ?_⟩
  · rw [toList_groupText, run_cons, hopen, bind_ok, run_append, run_after hawaits hrun, bind_ok,
      run_cons, hclose]
    rfl
  · simp [close_after, groupTokens]
  · rw [awaitsOperand_push]
    rfl

/-- An operator is a sign exactly if it can be one and an operand is awaited. -/
theorem step_symbol (s : Scan) (op : Operator) :
    s.step op.symbol = .ok ⟨pushOperator s.close op, ""⟩ := by
  cases op <;> rfl

end Scan

theorem tokenize_group {s : String} {ts : List Token} (h : tokenize s = .ok ts) :
    tokenize (groupText s) = .ok (groupTokens ts) := by
  obtain ⟨tokens, hrun, htokens, -⟩ := Scan.run_group h Scan.empty
  exact tokenize_eq_ok_iff.mpr ⟨_, hrun, htokens⟩

theorem tokenize_percent {s : String} {ts : List Token} (h : tokenize s = .ok ts) :
    tokenize (groupText s ++ "%") = .ok (groupTokens ts ++ [.percent]) := by
  obtain ⟨tokens, hrun, htokens, -⟩ := Scan.run_group h Scan.empty
  refine tokenize_eq_ok_iff.mpr ⟨⟨tokens.push .percent, ""⟩, ?_, ?_⟩
  · rw [String.toList_append, Scan.run_append, hrun]
    rfl
  · rw [Scan.close_of_digits_empty, Array.toList_push, htokens]
    rfl

theorem tokenize_sign {op : Operator} (hop : op.isSign = true) {s : String} {ts : List Token}
    (h : tokenize s = .ok ts) :
    tokenize (String.singleton op.symbol ++ groupText s) =
      .ok ([.number "0"] ++ .operator op true :: groupTokens ts) := by
  obtain ⟨tokens, hrun, htokens, -⟩ :=
    Scan.run_group h ⟨#[.number "0", .operator op true], ""⟩
  have hsign : Scan.empty.step op.symbol = .ok ⟨#[.number "0", .operator op true], ""⟩ := by
    rw [Scan.step_symbol]
    simp [Scan.pushOperator, Scan.empty, hop]
  refine tokenize_eq_ok_iff.mpr ⟨⟨tokens, ""⟩, ?_, by simpa using htokens⟩
  rw [String.toList_append, String.toList_singleton, List.singleton_append, Scan.run_cons, hsign]
  exact hrun

/-- An operator between two texts in parentheses is binary. -/
theorem tokenize_binary {s t : String} {ts us : List Token} (hs : tokenize s = .ok ts)
    (ht : tokenize t = .ok us) (op : Operator) :
    tokenize (joinText op s t) =
      .ok (groupTokens ts ++ .operator op false :: groupTokens us) := by
  obtain ⟨left, hleft, htokens₁, hawaits⟩ := Scan.run_group hs Scan.empty
  have hbinary : (⟨left, ""⟩ : Scan).step op.symbol = .ok ⟨left.push (.operator op false), ""⟩ := by
    rw [Scan.step_symbol]
    simp [Scan.pushOperator, hawaits]
  obtain ⟨tokens, hright, htokens₂, -⟩ := Scan.run_group ht ⟨left.push (.operator op false), ""⟩
  refine tokenize_eq_ok_iff.mpr ⟨⟨tokens, ""⟩, ?_, ?_⟩
  · rw [joinText, String.toList_append, String.toList_append, String.toList_singleton,
      List.append_assoc, List.singleton_append, Scan.run_append, hleft, bind_ok, Scan.run_cons,
      hbinary]
    exact hright
  · simp [htokens₂, htokens₁, Scan.empty]

/-! ### Operands -/

/-- The tokens are an operand with this post-order and value: they are ordered without regard to
what waits, and computed without regard to what lies below. -/
structure ActsAs (ts post : List Token) (a : Binary64) : Prop where
  /-- They are written in post-order, and leave the stack of the yard as it was. -/
  order : ∀ s : Yard, ∃ s', s.run ts = .ok s' ∧ s'.output.toList = s.output.toList ++ post ∧
    s'.stack = s.stack
  /-- Their post-order pushes the value. -/
  value : ∀ stack, Stack.run stack post = .ok (a :: stack)

namespace ActsAs

variable {ts us post post' : List Token} {a b : Binary64}

/-- The implicit zero of a sign. -/
theorem zero : ActsAs [.number "0"] [.number "0"] (.zero false) where
  order s := ⟨_, rfl, by simp, rfl⟩
  value stack := by simp [Stack.step]

/-- Tokens with a value, in parentheses. -/
theorem group {x : Binary64.Finite} (hpost : evaluationOrder ts = .ok post)
    (hx : evaluateOrdered post = .ok x) : ActsAs (groupTokens ts) post (.finite x) where
  order s := Yard.run_group hpost s
  value stack := Stack.run_of_evaluateOrdered stack hx

theorem percent (h : ActsAs ts post a) :
    ActsAs (ts ++ [.percent]) (post ++ [.percent]) (a.div hundred) where
  order s := by
    obtain ⟨s', hrun, hout, hstack⟩ := h.order s
    refine ⟨{ s' with output := s'.output.push .percent }, ?_, by simp [hout], hstack⟩
    rw [Yard.run_append, hrun]
    rfl
  value stack := by
    rw [Stack.run_append, h.value, bind_ok, Stack.run_singleton]
    rfl

/-- A text that is one operand has its value. -/
theorem evaluate_eq {expression : String} (h : ActsAs ts post a)
    (hts : tokenize expression = .ok ts) : evaluate expression = requireFinite a := by
  obtain ⟨s, hrun, hout, hstack⟩ := h.order Yard.empty
  have horder : evaluationOrder ts = .ok post := by
    rw [evaluationOrder, hrun, bind_ok, Yard.close_eq_ok_iff]
    exact ⟨by simp [hstack, Yard.empty], by simp [hout, hstack, Yard.empty]⟩
  rw [evaluate, hts, bind_ok, horder, bind_ok, evaluateOrdered, h.value, bind_ok,
    Stack.close_singleton]

/-- A text of two operands and an operator between them has the result of the operation. -/
theorem evaluate_node {expression : String} {op : Operator} {unary : Bool}
    (hleft : ActsAs ts post a) (hright : ActsAs us post' b)
    (hts : tokenize expression = .ok (ts ++ .operator op unary :: us)) :
    evaluate expression = (op.apply a b).bind requireFinite := by
  obtain ⟨s₁, hrun₁, hout₁, hstack₁⟩ := hleft.order Yard.empty
  -- nothing waits after the left operand, so the operator waits alone
  have hstep : s₁.step (.operator op unary) = .ok ⟨s₁.output, [.operator op unary]⟩ := by
    simp [Yard.step, hstack₁, Yard.empty]
  obtain ⟨s₂, hrun₂, hout₂, hstack₂⟩ := hright.order ⟨s₁.output, [.operator op unary]⟩
  have horder : evaluationOrder (ts ++ .operator op unary :: us) =
      .ok (post ++ post' ++ [.operator op unary]) := by
    rw [evaluationOrder, Yard.run_append, hrun₁, bind_ok, Yard.run_cons, hstep, bind_ok, hrun₂,
      bind_ok, Yard.close_eq_ok_iff]
    exact ⟨by simp [hstack₂, Token.isParen], by simp [hout₂, hstack₂, hout₁, Yard.empty]⟩
  rw [evaluate, hts, bind_ok, horder, bind_ok, evaluateOrdered,
    Stack.run_node (a := .ok a) (b := .ok b) hleft.value hright.value]
  show ((op.apply a b).map (· :: [])).bind Stack.close = _
  cases op.apply a b with
  | error cause => rfl
  | ok z => rw [map_ok, bind_ok, Stack.close_singleton, bind_ok]

end ActsAs

/-- A text with a value, in parentheses, is an operand with that value. -/
theorem exists_actsAs_of_evaluate {s : String} {x : Binary64.Finite} (h : evaluate s = .ok x) :
    ∃ ts post, tokenize s = .ok ts ∧ ActsAs (groupTokens ts) post (.finite x) := by
  obtain ⟨ts, post, hts, hpost, hx⟩ := evaluate_eq_ok_iff.mp h
  exact ⟨ts, post, hts, .group hpost hx⟩

/-! ### Joining texts -/

section Compose

variable {s t : String} {x y : Binary64.Finite}

theorem evaluate_group (hs : evaluate s = .ok x) : evaluate (groupText s) = .ok x := by
  obtain ⟨ts, post, hts, hacts⟩ := exists_actsAs_of_evaluate hs
  exact hacts.evaluate_eq (tokenize_group hts)

theorem evaluate_percent (hs : evaluate s = .ok x) :
    evaluate (groupText s ++ "%") = requireFinite ((Binary64.finite x).div hundred) := by
  obtain ⟨ts, post, hts, hacts⟩ := exists_actsAs_of_evaluate hs
  exact hacts.percent.evaluate_eq (tokenize_percent hts)

theorem evaluate_sign (op : Operator) (hop : op.isSign = true) (hs : evaluate s = .ok x) :
    evaluate (String.singleton op.symbol ++ groupText s) =
      (op.apply (.zero false) (.finite x)).bind requireFinite := by
  obtain ⟨ts, post, hts, hacts⟩ := exists_actsAs_of_evaluate hs
  exact ActsAs.zero.evaluate_node hacts (tokenize_sign hop hts)

theorem evaluate_binary (hs : evaluate s = .ok x) (ht : evaluate t = .ok y) (op : Operator) :
    evaluate (joinText op s t) = (op.apply (.finite x) (.finite y)).bind requireFinite := by
  obtain ⟨ts, post, hts, hleft⟩ := exists_actsAs_of_evaluate hs
  obtain ⟨us, post', hus, hright⟩ := exists_actsAs_of_evaluate ht
  exact hleft.evaluate_node hright (tokenize_binary hts hus op)

/-- The three outcomes of an operation whose result has to be finite. -/
theorem Operator.apply_bind_requireFinite (op : Operator) (a b : Binary64) :
    ((op.apply a b).bind requireFinite = .error .divisionByZero ↔
        op = .divide ∧ b.isZero = true) ∧
      ((op.apply a b).bind requireFinite = .error .notFinite ↔
        ∃ z, op.apply a b = .ok z ∧ z.isFinite = false) ∧
      ∀ v, (op.apply a b).bind requireFinite = .ok v ↔ op.apply a b = .ok (.finite v) := by
  cases h : op.apply a b with
  | error cause =>
    obtain ⟨rfl, hb, rfl⟩ := Operator.apply_eq_error_iff.mp h
    simp [hb]
  | ok z =>
    have hdivide : ¬ (op = .divide ∧ b.isZero = true) := by
      rintro ⟨rfl, hb⟩
      simp [Operator.apply, hb] at h
    refine ⟨?_, ?_, ?_⟩
    · rw [bind_ok, requireFinite_eq_error_iff]
      simp [hdivide]
    · rw [bind_ok, requireFinite_eq_error_iff]
      simp
    · intro v
      rw [bind_ok, requireFinite_eq_ok_iff]
      simp

/-- **Evaluation is compositional.** For all texts with values, in parentheses: an operator between
two of them does what it does on the values, a percent sign divides by one hundred, a minus sign
takes away from zero, and the parentheses alone change nothing. -/
theorem evaluate_compose (hs : evaluate s = .ok x) (ht : evaluate t = .ok y) :
    (∀ op : Operator,
      evaluate (joinText op s t) = (op.apply (.finite x) (.finite y)).bind requireFinite ∧
        (evaluate (joinText op s t) = .error .divisionByZero ↔
          op = .divide ∧ y.isZero = true) ∧
        (evaluate (joinText op s t) = .error .notFinite ↔
          ∃ z, op.apply (.finite x) (.finite y) = .ok z ∧ z.isFinite = false) ∧
        ∀ v, evaluate (joinText op s t) = .ok v ↔
          op.apply (.finite x) (.finite y) = .ok (.finite v)) ∧
      (evaluate (groupText s ++ "%")).map Binary64.finite =
        .ok ((Binary64.finite x).div hundred) ∧
      (evaluate ("-" ++ groupText s)).map Binary64.finite =
        .ok ((Binary64.zero false).sub (.finite x)) ∧
      evaluate (groupText s) = .ok x := by
  refine ⟨?_, ?_, ?_, evaluate_group hs⟩
  · intro op
    rw [evaluate_binary hs ht op]
    exact ⟨rfl, op.apply_bind_requireFinite (.finite x) (.finite y)⟩
  · -- a hundredth is always finite
    obtain ⟨q, hq⟩ := Binary64.exists_div_hundred x
    rw [evaluate_percent hs, hq]
    rfl
  · have hsign := evaluate_sign .minus rfl hs
    rw [Operator.apply, bind_ok, Binary64.zero_sub, requireFinite_finite] at hsign
    show (evaluate (String.singleton Operator.minus.symbol ++ groupText s)).map _ = _
    rw [hsign, map_ok, Binary64.zero_sub]

end Compose

/-- Two texts with values that no grammar would accept, divided. -/
theorem evaluate_compose_of_misplaced_operators :
    evaluate "1 2+" = .ok ⟨false, 4613937818241073152, by decide⟩ ∧
      evaluate "2(3+)" = .ok ⟨false, 4617315517961601024, by decide⟩ ∧
      evaluate "(1 2+)/(2(3+))" = .ok ⟨false, 4603579539098121011, by decide⟩ := by
  have hs : evaluate "1 2+" = .ok ⟨false, 4613937818241073152, by decide⟩ := by decide +kernel
  have ht : evaluate "2(3+)" = .ok ⟨false, 4617315517961601024, by decide⟩ := by decide +kernel
  refine ⟨hs, ht, ?_⟩
  have hquotient := ((evaluate_compose hs ht).1 .divide).1
  rw [show evaluate "(1 2+)/(2(3+))" = _ from hquotient]
  decide +kernel

end DeskCalculator.Expression
