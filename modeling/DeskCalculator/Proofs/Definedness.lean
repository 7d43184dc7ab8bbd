import DeskCalculator.Proofs.Expression.Computing
import DeskCalculator.Proofs.Numeric.ExactSteps
import DeskCalculator.Proofs.Numeric.ResultRounding

/-!
# DeskCalculator.Proofs.Definedness

A calculation ends with a result or a failure, whatever the text. Some of its operations have no
result everywhere: a binding is found for operators only, the top of a stack is there if the stack
is not empty, a quotient needs a divisor that is not zero, rounding needs room for the digits, and
only a finite number is written. `attempt` is the calculation with these operations as they are,
undefined where they have no result; it is defined everywhere and is the calculation
(`attempt_eq`).
-/

namespace DeskCalculator

open Numeric (Binary64 digitCount)
open Numeric.Binary64 (Finite shortest)

namespace Expression

/-- A step that may be undefined, and where it is defined may fail for a reason. -/
abbrev Attempt := ExceptT Failure Option

/-! ### Operations that are not defined everywhere -/

/-- Whether a waiting token goes before an arriving operator, by the bindings of both. -/
def Token.goesFirst? (arriving waiting : Token) : Option Bool :=
  if waiting.isOperator then do
    let binding ← arriving.binding?
    let binding' ← waiting.binding?
    return binding.yieldsTo binding'
  else return false

/-- The waiting tokens that go before an arriving operator, and those that stay. -/
def Token.splitWaiting? (arriving : Token) : List Token → Option (List Token × List Token)
  | [] => return ([], [])
  | waiting :: below => do
    if ← arriving.goesFirst? waiting then
      let (first, rest) ← arriving.splitWaiting? below
      return (waiting :: first, rest)
    else return ([], waiting :: below)

/-- One step of ordering, undefined where a binding is looked up that is not there. -/
def Yard.attemptStep (s : Yard) (t : Token) : Attempt Yard :=
  if t.isOperator then do
    let (first, rest) ← t.splitWaiting? s.stack
    return ⟨s.output ++ first, t :: rest⟩
  else s.step t

/-- A quotient, undefined for a divisor that is zero. -/
def quotient? (a b : Binary64) : Option Binary64 := if b.isZero then none else some (a.div b)

/-- Applies an operator. Whether the divisor is zero is asked before the division. -/
def Operator.attempt (op : Operator) (a b : Binary64) : Attempt Binary64 :=
  if op = .divide then
    if b.isZero then throw .divisionByZero else quotient? a b
  else op.apply a b

namespace Stack

/-- The top of a stack and what is below it. -/
def pop? : Stack → Option (Binary64 × Stack)
  | [] => none
  | a :: below => some (a, below)

/-- One step of the computation, undefined where a stack is too short. How high it is, is asked
before anything is taken from it. -/
def attemptStep (stack : Stack) : Token → Attempt Stack
  | .percent =>
    if stack.isEmpty then throw .missingPercentOperand
    else do
      let (a, below) ← stack.pop?
      let hundredth ← quotient? a hundred
      return hundredth :: below
  | .operator op _ =>
    if stack.length < 2 then throw (.missingOperands op)
    else do
      let (b, rest) ← stack.pop?
      let (a, below) ← rest.pop?
      let x ← op.attempt a b
      return x :: below
  | t => stack.step t

/-- The value that is left at the end, alone on the stack. -/
def attemptClose (stack : Stack) : Attempt Finite :=
  if stack.length ≠ 1 then throw .incomplete
  else do
    let (a, _) ← stack.pop?
    requireFinite a

end Stack

/-- The value of an expression, undefined where one of the steps is. -/
def attemptEvaluate (expression : String) : Attempt Finite := do
  let ts ← tokenize expression
  let yard ← ts.foldlM Yard.attemptStep .empty
  let post ← yard.close
  let stack ← post.foldlM Stack.attemptStep []
  stack.attemptClose

end Expression

open Expression

/-- The rounded value, undefined if it has more digits than there is room for. -/
def roundedResult? (x : Finite) : Option Binary64 :=
  if digitCount ((shortest x.rank).roundTo resultPlaces) ≤ roundingDigits then
    some (roundedResult x)
  else none

/-- The text of a value, undefined if the value is not finite. -/
def resultText? (x : Binary64) : Option String := x.finite?.map resultText

/-- The calculation, undefined where one of its operations is. -/
def attempt (expression : String) : Attempt String := do
  let x ← attemptEvaluate expression
  let rounded ← roundedResult? x
  resultText? rounded

/-! ### They are defined where they are used -/

namespace Expression

variable {α β : Type}

/-- A step that is defined. -/
def Attempt.defined (x : Except Failure α) : Attempt α := ExceptT.mk (some x)

@[simp] theorem Attempt.lift_some (a : α) : (liftM (some a) : Attempt α) = defined (.ok a) := rfl

@[simp] theorem Attempt.lift_except (x : Except Failure α) : (liftM x : Attempt α) = defined x :=
  rfl

@[simp] theorem Attempt.ok_bind (a : α) (f : α → Attempt β) :
    defined (.ok a) >>= f = f a := rfl

theorem Attempt.defined_bind (x : Except Failure α) (f : α → Except Failure β) :
    (defined x >>= fun a => defined (f a)) = defined (x.bind f) := by
  cases x <;> rfl

theorem Attempt.foldlM_eq {f? : α → β → Attempt α} {f : α → β → Except Failure α}
    (h : ∀ a b, f? a b = defined (f a b)) (list : List β) (a : α) :
    list.foldlM f? a = defined (list.foldlM f a) := by
  induction list generalizing a with
  | nil => rfl
  | cons b list ih =>
    rw [List.foldlM_cons, h, List.foldlM_cons]
    simp only [ih]
    exact defined_bind _ _

theorem Token.goesFirst?_operator (op : Operator) (unary : Bool) (waiting : Token) :
    goesFirst? (.operator op unary) waiting = some (goesBefore (op.binding unary) waiting) := by
  cases waiting <;> simp [goesFirst?, goesBefore, isOperator]

theorem Token.splitWaiting?_operator (op : Operator) (unary : Bool) (stack : List Token) :
    splitWaiting? (.operator op unary) stack =
      some (stack.takeWhile (goesBefore (op.binding unary)),
        stack.dropWhile (goesBefore (op.binding unary))) := by
  induction stack with
  | nil => rfl
  | cons waiting below ih =>
    rw [splitWaiting?, goesFirst?_operator, ih]
    cases h : goesBefore (op.binding unary) waiting <;> simp [h]

theorem Yard.attemptStep_eq (s : Yard) (t : Token) : s.attemptStep t = .defined (s.step t) := by
  cases t with
  | operator op unary =>
    rw [attemptStep, if_pos (by rfl), Token.splitWaiting?_operator]
    rfl
  | _ => rfl

theorem quotient?_eq {b : Binary64} (hb : b.isZero = false) (a : Binary64) :
    quotient? a b = some (a.div b) := by
  simp [quotient?, hb]

theorem Operator.attempt_eq (op : Operator) (a b : Binary64) :
    op.attempt a b = .defined (op.apply a b) := by
  cases op with
  | divide =>
    rw [Operator.attempt, if_pos rfl, Operator.apply]
    cases hb : b.isZero with
    | true => rfl
    | false =>
      rw [quotient?_eq hb]
      rfl
  | _ => rfl

theorem Stack.attemptStep_eq (stack : Stack) (t : Token) :
    stack.attemptStep t = .defined (stack.step t) := by
  cases t with
  | percent =>
    have hhundred : hundred.isZero = false := by decide +kernel
    cases stack with
    | nil => rfl
    | cons a below =>
      simp only [attemptStep, List.isEmpty_cons, Bool.false_eq_true, if_false, pop?,
        quotient?_eq hhundred, Attempt.lift_some, Attempt.ok_bind]
      rfl
  | operator op unary =>
    match stack with
    | [] => rfl
    | [_] => rfl
    | b :: a :: below =>
      have hlength : ¬ (b :: a :: below).length < 2 := by simp
      simp only [attemptStep, if_neg hlength, pop?, Attempt.lift_some, Attempt.ok_bind,
        Operator.attempt_eq]
      cases h : op.apply a b with
      | error cause =>
        simp only [step, h]
        rfl
      | ok x =>
        simp only [step, h]
        rfl
  | _ => rfl

theorem Stack.attemptClose_eq (stack : Stack) : stack.attemptClose = .defined stack.close := by
  match stack with
  | [] => rfl
  | [a] =>
    rw [close_singleton]
    rfl
  | _ :: _ :: _ =>
    rw [attemptClose, if_pos (by simp)]
    simp only [close]
    rfl

theorem attemptEvaluate_eq (expression : String) :
    attemptEvaluate expression = .defined (evaluate expression) := by
  rw [attemptEvaluate, evaluate]
  simp only [Attempt.foldlM_eq Yard.attemptStep_eq, Attempt.foldlM_eq Stack.attemptStep_eq,
    Stack.attemptClose_eq, Attempt.lift_except, Attempt.defined_bind]
  cases tokenize expression with
  | error cause => rfl
  | ok ts =>
    rw [bind_ok, bind_ok, evaluationOrder, Yard.run]
    cases ts.foldlM Yard.step Yard.empty <;> rfl

end Expression

theorem roundedResult?_eq (x : Finite) : roundedResult? x = some (roundedResult x) :=
  if_pos (Numeric.Binary64.digitCount_roundTo_shortest_le x.rank_lt)

/-- **Calculations are defined everywhere.** -/
theorem attempt_eq (expression : String) :
    (attempt expression).run = some (calculate expression) := by
  rw [attempt, attemptEvaluate_eq, calculate]
  cases evaluate expression with
  | error cause => rfl
  | ok x =>
    obtain ⟨y, hy⟩ := exists_roundedResult x
    have hwritten : resultText? (.finite y) = some (resultText y) := rfl
    simp only [Attempt.ok_bind, roundedResult?_eq, hy, Attempt.lift_some, hwritten, bind_ok]
    rfl

end DeskCalculator
