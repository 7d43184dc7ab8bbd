import DeskCalculator.Expression.Failure

/-!
# DeskCalculator.Expression.EvaluationOrder

From tokens as written to evaluation order, where every operator stands after its operands and
parentheses are gone. Tokens are taken from left to right; numbers and percent signs pass through,
operators wait on a stack until an operator arrives that binds less tightly, or their group ends.

Nothing but parentheses is checked: a list of tokens that is no expression is brought into some
order as well, and fails when it is evaluated.
-/

namespace DeskCalculator.Expression

/-- Whether a waiting operator goes first when an operator arrives: if it binds tighter, or as
tightly and the arriving operator leaves the operand to its left neighbour. -/
def Binding.yieldsTo (arriving waiting : Binding) : Bool :=
  if arriving.leftAssociative then arriving.precedence ≤ waiting.precedence
  else arriving.precedence < waiting.precedence

/-- Whether a waiting token is an operator that goes before the arriving one. -/
def Token.goesBefore (arriving : Binding) : Token → Bool
  | .operator op unary => arriving.yieldsTo (op.binding unary)
  | _ => false

/-- A shunting yard: tokens brought into order in part. -/
structure Yard where
  /-- The tokens in their final places. -/
  output : Array Token
  /-- Operators and opening parentheses that wait, the latest first. -/
  stack : List Token
  deriving DecidableEq

namespace Yard

/-- Nothing has been taken yet. -/
def empty : Yard := ⟨#[], []⟩

/-- Takes the next token. -/
def step (s : Yard) : Token → Except Failure Yard
  | .number text => .ok { s with output := s.output.push (.number text) }
  | .percent => .ok { s with output := s.output.push .percent }
  | .operator op unary =>
    let first := Token.goesBefore (op.binding unary)
    .ok ⟨s.output ++ s.stack.takeWhile first, .operator op unary :: s.stack.dropWhile first⟩
  | .leftParen => .ok { s with stack := .leftParen :: s.stack }
  | .rightParen =>
    match s.stack.dropWhile (· != .leftParen) with
    | [] => .error .mismatchedParentheses
    | _ :: outer => .ok ⟨s.output ++ s.stack.takeWhile (· != .leftParen), outer⟩

/-- Takes some tokens, one after the other. -/
def run (s : Yard) (tokens : List Token) : Except Failure Yard := tokens.foldlM step s

/-- Ends the list: the waiting operators follow, unless a group is still open. -/
def close (s : Yard) : Except Failure (List Token) :=
  if s.stack.any Token.isParen then .error .mismatchedParentheses
  else .ok (s.output.toList ++ s.stack)

@[simp] theorem run_nil (s : Yard) : s.run [] = .ok s := rfl

theorem run_append (s : Yard) (a b : List Token) :
    s.run (a ++ b) = (s.run a).bind fun s' => s'.run b := by
  simp only [run, List.foldlM_append]
  rfl

end Yard

/-- The tokens in evaluation order. -/
def evaluationOrder (tokens : List Token) : Except Failure (List Token) :=
  (Yard.empty.run tokens).bind Yard.close

end DeskCalculator.Expression
