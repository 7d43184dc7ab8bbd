import DeskCalculator.Proofs.Expression.Scanning
import DeskCalculator.Proofs.Expression.Ordering
import DeskCalculator.Proofs.Expression.Operand

/-!
# DeskCalculator.Proofs.Expression.Meaning

Evaluation computes the meaning of an expression. The three stages are joined on a derivation tree:
its texts are scanned to its tokens, these are ordered into its post-order, and the stack machine
run on the post-order pushes its value, which is a matter of operands only (`Stack.run_operand`).

Main statement: `evaluate_eq_meaning`, for every tree of the grammar and every text of it.
-/

namespace DeskCalculator.Expression

open Numeric (Binary64)

variable {c : Category}

/-- A binary node on the stack machine, from what its operands do. -/
theorem Stack.run_node {op : Operator} {unary : Bool} {ts us : List Token}
    {a b : Except Failure Binary64}
    (ha : ∀ stack, run stack ts = a.map (· :: stack))
    (hb : ∀ stack, run stack us = b.map (· :: stack)) (stack : Stack) :
    run stack (ts ++ us ++ [.operator op unary]) =
      (Derivation.nodeValue op a b).map (· :: stack) := by
  rw [List.append_assoc, run_append, ha]
  cases a with
  | error cause => rfl
  | ok x =>
    rw [map_ok, bind_ok, run_append, hb]
    cases b with
    | error cause => rfl
    | ok y => rw [map_ok, bind_ok, run_singleton]; rfl

/-- The post-order of an operand pushes its value, on any stack. -/
theorem Stack.run_operand (a : Operand) (stack : Stack) :
    run stack a.postOrder = a.value.map (· :: stack) := by
  induction a generalizing stack with
  | number text =>
    rw [Operand.postOrder, run_singleton]
    rfl
  | percent a ih =>
    rw [Operand.postOrder, run_append, ih, Operand.value]
    cases a.value with
    | error cause => rfl
    | ok x =>
      rw [map_ok, bind_ok, run_singleton]
      rfl
  | operation op unary a b iha ihb => exact run_node iha ihb stack

/-- The post-order of an operand evaluates to its value, if that is finite. -/
theorem evaluateOrdered_operand (a : Operand) :
    evaluateOrdered a.postOrder = a.value.bind requireFinite := by
  rw [evaluateOrdered, Stack.run_operand]
  cases a.value with
  | error cause => rfl
  | ok x => rw [map_ok, bind_ok, Stack.close_singleton, bind_ok]

/-- The post-order of a tree evaluates to the value of the tree, if that is finite. -/
theorem evaluateOrdered_postOrder (d : Derivation c) :
    evaluateOrdered d.postOrder = d.value.bind requireFinite := by
  rw [← d.postOrder_toOperand, evaluateOrdered_operand, d.value_toOperand]

/-- A text of a tree evaluates to the value of the tree, if that is finite. -/
theorem evaluate_of_renders {d : Derivation .sum} {expression : String}
    (h : Renders d.lexemes expression.toList) :
    evaluate expression = d.value.bind requireFinite := by
  rw [evaluate, tokenize_of_renders_derivation h, bind_ok, evaluationOrder_tokens, bind_ok,
    evaluateOrdered_postOrder]

/-- **Evaluation computes the meaning of an expression.** A text of a tree has the value of the tree
if that is finite. If it has none, the cause is the first failing leaf or node in post-order, or
else that the value of the whole is not finite; no other kind of failure is possible. -/
theorem evaluate_eq_meaning (d : Derivation .sum) (expression : String)
    (h : Renders d.lexemes expression.toList) :
    evaluate expression = d.value.bind requireFinite ∧
      (∀ cause, d.value = .error cause ↔ d.failures.head? = some cause) ∧
      ∀ cause, evaluate expression = .error cause →
        cause.kind = .invalidNumber ∨ cause.kind = .divisionByZero ∨ cause.kind = .mathError := by
  have heval := evaluate_of_renders h
  refine ⟨heval, fun cause => Derivation.value_eq_error_iff, ?_⟩
  intro cause hcause
  rw [heval] at hcause
  cases hvalue : d.value with
  | error first =>
    obtain rfl : first = cause := by simpa [hvalue] using hcause
    have hmem : first ∈ d.failures :=
      List.mem_of_head? (Derivation.value_eq_error_iff.mp hvalue)
    rcases Derivation.treeFailure_of_mem_failures hmem with hkind | hkind
    · exact .inl hkind
    · exact .inr (.inl hkind)
  | ok x =>
    rw [hvalue, bind_ok, requireFinite_eq_error_iff] at hcause
    obtain ⟨-, rfl⟩ := hcause
    exact .inr (.inr rfl)

/-- The tree of eight divided by minus a group of one and three hundred percent. -/
def quotientBySignedGroup : Derivation .sum :=
  .product (.mul (.signed (.operand (.number ⟨"8", by decide, List.all_eq_true.mp rfl⟩))) .divide rfl
    (.sign .minus rfl (.operand (.group
      (.add (.product (.signed (.operand (.number ⟨"1", by decide, List.all_eq_true.mp rfl⟩))))
        .plus rfl
        (.signed (.operand (.percent
          (.number ⟨"300", by decide, List.all_eq_true.mp rfl⟩)))))))))

theorem evaluate_eq_meaning_of_quotient :
    Renders quotientBySignedGroup.lexemes "8 / -(1 + 300%)".toList ∧
      quotientBySignedGroup.value = .ok (.finite ⟨true, 4611686018427387904, by decide⟩) ∧
      evaluate "8 / -(1 + 300%)" = .ok ⟨true, 4611686018427387904, by decide⟩ := by
  have hblank : [' '].all Text.isBlank = true := by decide
  have htext : Renders quotientBySignedGroup.lexemes "8 / -(1 + 300%)".toList :=
    .lexeme <| .cons hblank <| .cons hblank <| .lexeme <| .lexeme <| .cons hblank <|
      .cons hblank <| .lexeme <| .lexeme <| .empty
  have hvalue : quotientBySignedGroup.value =
      .ok (.finite ⟨true, 4611686018427387904, by decide⟩) :=
    toOption_eq_some_iff.mp (by decide +kernel)
  refine ⟨htext, hvalue, ?_⟩
  rw [(evaluate_eq_meaning quotientBySignedGroup _ htext).1, hvalue]
  rfl

end DeskCalculator.Expression
