import DeskCalculator.Expression.EvaluationOrder
import DeskCalculator.Expression.Scan
import DeskCalculator.Numeric.Arithmetic
import DeskCalculator.Numeric.Numeral

/-!
# DeskCalculator.Expression.Evaluation

The value of an expression. Tokens in evaluation order are run on a stack of binary numbers: a
number is pushed, a percent sign divides the top by one hundred, an operator replaces the two
topmost values by its result.

Values in between may be infinite or no number; only the last value has to be finite.
-/

namespace DeskCalculator.Expression

open Numeric (Binary64)

/-- One hundred, the divisor of a percent sign. -/
def hundred : Binary64 := Binary64.ofNat 100

/-- The value of a number as written. -/
def readNumber (text : String) : Except Failure Binary64 :=
  match Binary64.Finite.ofText? text with
  | some x => .ok (.finite x)
  | none => .error (.invalidNumber text)

/-- The result of an operation; only division can fail. -/
def Operator.apply (op : Operator) (a b : Binary64) : Except Failure Binary64 :=
  match op with
  | .plus => .ok (a.add b)
  | .minus => .ok (a.sub b)
  | .times => .ok (a.mul b)
  | .divide => if b.isZero then .error .divisionByZero else .ok (a.div b)

/-- The values computed so far, the latest first. -/
abbrev Stack := List Binary64

namespace Stack

/-- Takes the next token. -/
def step (stack : Stack) : Token → Except Failure Stack
  | .number text => (readNumber text).map (· :: stack)
  | .percent =>
    match stack with
    | [] => .error .missingPercentOperand
    | a :: below => .ok (a.div hundred :: below)
  | .operator op _ =>
    match stack with
    | b :: a :: below => (op.apply a b).map (· :: below)
    | _ => .error (.missingOperands op)
  | .leftParen => .error (.unexpectedToken .leftParen)
  | .rightParen => .error (.unexpectedToken .rightParen)

/-- Takes some tokens, one after the other. -/
def run (stack : Stack) (tokens : List Token) : Except Failure Stack := tokens.foldlM step stack

/-- The value at the end: the only one on the stack, if it is finite. -/
def close : Stack → Except Failure Binary64.Finite
  | [.finite x] => .ok x
  | [_] => .error .notFinite
  | _ => .error .incomplete

@[simp] theorem run_nil (stack : Stack) : run stack [] = .ok stack := rfl

theorem run_append (stack : Stack) (a b : List Token) :
    run stack (a ++ b) = (run stack a).bind fun s => run s b := by
  simp only [run, List.foldlM_append]
  rfl

end Stack

/-- The value of tokens in evaluation order. -/
def evaluateOrdered (tokens : List Token) : Except Failure Binary64.Finite :=
  (Stack.run [] tokens).bind Stack.close

/-- The value of an expression. -/
def evaluate (expression : String) : Except Failure Binary64.Finite :=
  ((tokenize expression).bind evaluationOrder).bind evaluateOrdered

end DeskCalculator.Expression
