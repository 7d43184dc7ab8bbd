import DeskCalculator.Proofs.Expression.Grammar

/-!
# DeskCalculator.Proofs.Expression.Operand

Operands as trees without their notation: numbers as leaves, percent signs with one branch and
operators with two. This is all that evaluation sees of an expression.

* **Meaning.** An operand has a value or failures that account for there being none
  (`Operand.value_eq_error_iff`).
* **Notation.** Groups and the levels of precedence are forgotten, and a sign becomes an operator
  with an implicit zero (`Derivation.toOperand`). Neither the post-order nor the value nor the
  failures of a tree depend on more than that, so what holds of operands holds of trees.
-/

namespace DeskCalculator.Expression

open Numeric (Binary64)
open DeskCalculator.Expression.Derivation (nodeValue nodeFailure Explains explains_nodeValue)

/-- An operand as a tree. Operators stand for themselves here: whether one is marked as unary
changes nothing about its operands. -/
inductive Operand
  | number (text : String)
  | percent (a : Operand)
  | operation (op : Operator) (unary : Bool) (a b : Operand)
  deriving DecidableEq

namespace Operand

/-- The tokens of an operand, every operator and percent sign after what it is applied to. -/
def postOrder : Operand → List Token
  | number text => [.number text]
  | percent a => a.postOrder ++ [.percent]
  | operation op unary a b => a.postOrder ++ b.postOrder ++ [.operator op unary]

/-- The value of an operand, the left one of two first. -/
def value : Operand → Except Failure Binary64
  | number text => readNumber text
  | percent a => a.value.map fun x => x.div hundred
  | operation op _ a b => nodeValue op a.value b.value

/-- All the leaves and nodes that fail, in post-order, each with a failure of its own. -/
def failures : Operand → List Failure
  | number text =>
    match readNumber text with
    | .ok _ => []
    | .error cause => [cause]
  | percent a => a.failures
  | operation op _ a b => a.failures ++ b.failures ++ nodeFailure op a.value b.value

theorem explains_failures (a : Operand) : Explains a.failures a.value := by
  induction a with
  | number text =>
    simp only [failures, value]
    cases readNumber text <;> simp [Explains]
  | percent a ih =>
    simp only [failures, value]
    cases hv : a.value <;> simpa [hv, Explains] using ih
  | operation op unary a b iha ihb => exact explains_nodeValue op iha ihb

/-- An operand has no value exactly if a leaf or a node fails, and then the first of them in
post-order tells why. -/
theorem value_eq_error_iff {a : Operand} {cause : Failure} :
    a.value = .error cause ↔ a.failures.head? = some cause :=
  a.explains_failures.eq_error_iff

theorem treeFailure_of_mem_failures {a : Operand} {cause : Failure} (h : cause ∈ a.failures) :
    Derivation.TreeFailure cause := by
  induction a with
  | number text =>
    cases hx : readNumber text with
    | ok x => simp [failures, hx] at h
    | error other =>
      obtain rfl : cause = other := by simpa [failures, hx] using h
      rw [eq_invalidNumber_of_readNumber hx]
      exact .inl rfl
  | percent a ih => exact ih h
  | operation op unary a b iha ihb => exact Derivation.treeFailure_of_mem_node iha ihb h

end Operand

/-! ### Trees of the grammar as operands -/

namespace Derivation

variable {c : Category}

/-- The operand that a tree of the grammar stands for. -/
def toOperand : {c : Category} → Derivation c → Operand
  | _, add left op _ right => .operation op false left.toOperand right.toOperand
  | _, product t => t.toOperand
  | _, mul left op _ right => .operation op false left.toOperand right.toOperand
  | _, signed u => u.toOperand
  | _, sign op _ u => .operation op true (.number "0") u.toOperand
  | _, operand p => p.toOperand
  | _, number n => .number n.text
  | _, group e => e.toOperand
  | _, percent p => .percent p.toOperand

theorem postOrder_toOperand (d : Derivation c) : d.toOperand.postOrder = d.postOrder := by
  induction d with
  | add left op _ right ihl ihr | mul left op _ right ihl ihr =>
    rw [toOperand, postOrder, Operand.postOrder, ihl, ihr]
  | sign op _ u ih =>
    rw [toOperand, postOrder, Operand.postOrder, ih]
    rfl
  | percent p ih => rw [toOperand, postOrder, Operand.postOrder, ih]
  | number n => rfl
  | product _ ih | signed _ ih | operand _ ih | group _ ih => exact ih

theorem value_toOperand (d : Derivation c) : d.toOperand.value = d.value := by
  induction d with
  | add left op _ right ihl ihr | mul left op _ right ihl ihr =>
    rw [toOperand, value, Operand.value, ihl, ihr]
  | sign op _ u ih =>
    rw [toOperand, value, Operand.value, Operand.value, readNumber_zero, ih]
  | percent p ih => rw [toOperand, value, Operand.value, ih]
  | number n => rfl
  | product _ ih | signed _ ih | operand _ ih | group _ ih => exact ih

theorem failures_toOperand (d : Derivation c) : d.toOperand.failures = d.failures := by
  induction d with
  | add left op _ right ihl ihr | mul left op _ right ihl ihr =>
    rw [toOperand, failures, Operand.failures, ihl, ihr, value_toOperand, value_toOperand]
  | sign op _ u ih =>
    -- The implicit zero can be read, so nothing fails on the left.
    have hzero : (Operand.number "0").failures = [] := by simp [Operand.failures]
    have hvalue : (Operand.number "0").value = .ok (.zero false) := readNumber_zero
    rw [toOperand, failures, Operand.failures, hzero, hvalue, ih, value_toOperand, List.nil_append]
  | percent p ih => rw [toOperand, failures, Operand.failures, ih]
  | number n => rfl
  | product _ ih | signed _ ih | operand _ ih | group _ ih => exact ih

/-- A tree has no value exactly if a leaf or a node fails, and then the first of them in post-order
tells why. -/
theorem value_eq_error_iff {d : Derivation c} {cause : Failure} :
    d.value = .error cause ↔ d.failures.head? = some cause := by
  rw [← value_toOperand, ← failures_toOperand]
  exact Operand.value_eq_error_iff

theorem treeFailure_of_mem_failures {d : Derivation c} {cause : Failure}
    (h : cause ∈ d.failures) : TreeFailure cause := by
  rw [← failures_toOperand] at h
  exact Operand.treeFailure_of_mem_failures h

end Derivation

end DeskCalculator.Expression
