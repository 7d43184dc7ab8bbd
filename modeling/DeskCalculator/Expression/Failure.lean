import DeskCalculator.Expression.Token
import DeskCalculator.Text.Quoted

/-!
# DeskCalculator.Expression.Failure

Why an expression has no value. Every cause belongs to one of eight kinds, which callers tell
apart, and has a message for people.
-/

namespace DeskCalculator.Expression

/-- The kinds of failure that callers tell apart. -/
inductive FailureKind
  | invalidCharacter
  | mismatchedParentheses
  /-- A number that cannot be read or is too large. -/
  | invalidNumber
  /-- A percent sign without an operand. -/
  | percentError
  /-- An operator with too few operands. -/
  | operatorError
  | divisionByZero
  /-- Operands that no operator joins, or nothing at all. -/
  | invalidExpression
  /-- A value that is no finite number. -/
  | mathError
  deriving DecidableEq, Repr

/-- The name of a kind of failure, as notices give it. -/
def FailureKind.name : FailureKind → String
  | invalidCharacter => "invalid_character"
  | mismatchedParentheses => "mismatched_parentheses"
  | invalidNumber => "invalid_number"
  | percentError => "percent_error"
  | operatorError => "operator_error"
  | divisionByZero => "division_by_zero"
  | invalidExpression => "invalid_expression"
  | mathError => "math_error"

/-- The stages of an evaluation. -/
inductive Stage
  /-- Splitting the text into tokens. -/
  | scanning
  /-- Bringing the tokens into evaluation order. -/
  | ordering
  /-- Computing the value. -/
  | computing
  deriving DecidableEq, Repr

/-- Why an expression has no value. -/
inductive Failure
  /-- This character stands in no expression. A surrogate does not, either. -/
  | invalidCharacter (c : CodePoint)
  | mismatchedParentheses
  /-- This text denotes no finite number. -/
  | invalidNumber (text : String)
  | missingPercentOperand
  /-- This operator has fewer than two operands. -/
  | missingOperands (op : Operator)
  | divisionByZero
  /-- A token that has no meaning in evaluation order, a parenthesis. -/
  | unexpectedToken (token : Token)
  /-- Not exactly one value is left at the end. -/
  | incomplete
  /-- The value is infinite or no number. -/
  | notFinite
  deriving DecidableEq, Repr

namespace Failure

/-- The kind of a failure. -/
def kind : Failure → FailureKind
  | invalidCharacter _ => .invalidCharacter
  | mismatchedParentheses => .mismatchedParentheses
  | invalidNumber _ => .invalidNumber
  | missingPercentOperand => .percentError
  | missingOperands _ => .operatorError
  | divisionByZero => .divisionByZero
  | unexpectedToken _ => .invalidExpression
  | incomplete => .invalidExpression
  | notFinite => .mathError

/-- The stage that a failure ends. -/
def stage : Failure → Stage
  | invalidCharacter _ => .scanning
  | mismatchedParentheses => .ordering
  | _ => .computing

/-- What to tell a person about a cause. -/
def message : Failure → String
  | invalidCharacter c => "Carácter inválido: " ++ Text.quoted ⟨[c]⟩
  | mismatchedParentheses => "Paréntesis desbalanceados"
  | invalidNumber text => "Número inválido: " ++ text
  | missingPercentOperand => "Falta operando para '%'"
  | missingOperands op => "Faltan operandos para '" ++ String.singleton op.symbol ++ "'"
  | divisionByZero => "División por cero"
  | unexpectedToken token => "Token inesperado: " ++ token.lexeme
  | incomplete => "Expresión incompleta"
  | notFinite => "Resultado no finito"

end Failure

end DeskCalculator.Expression
