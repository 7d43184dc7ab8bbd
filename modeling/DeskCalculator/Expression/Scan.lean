import DeskCalculator.Expression.Failure
import DeskCalculator.Text.CharacterClass

/-!
# DeskCalculator.Expression.Scan

From the text of an expression to its tokens, one character at a time.

* **Numbers** are the longest runs of digits and points; a run is closed by the first other
  character, a blank included. Whether a run denotes a number is not asked here.
* **Signs.** A plus or minus where an operand is expected, at the start or after an operator or an
  opening parenthesis, is unary, and an implicit zero is put before it as its left operand.
* **Blanks** separate and are otherwise skipped. Any further character is refused.
-/

namespace DeskCalculator.Expression

/-- Whether a character belongs to a run of digits and points. -/
def isNumberChar (c : Char) : Bool := c.isDigit || c == '.'

/-- Whether an operand is expected after some tokens. -/
def awaitsOperand (tokens : Array Token) : Bool :=
  match tokens.back? with
  | none => true
  | some (.operator ..) => true
  | some .leftParen => true
  | some _ => false

/-- A text read in part. -/
structure Scan where
  /-- The tokens that are complete. -/
  tokens : Array Token
  /-- The run of digits and points at the end of what was read. -/
  digits : String
  deriving DecidableEq

namespace Scan

/-- Nothing has been read yet. -/
def empty : Scan := ⟨#[], ""⟩

/-- The tokens, with the run at the end as a number if there is one. -/
def close (s : Scan) : Array Token :=
  if s.digits = "" then s.tokens else s.tokens.push (.number s.digits)

/-- The tokens with an operator after them, and an implicit zero before it if it is a sign. -/
def pushOperator (tokens : Array Token) (op : Operator) : Array Token :=
  if op.isSign && awaitsOperand tokens then
    (tokens.push (.number "0")).push (.operator op true)
  else tokens.push (.operator op false)

/-- Reads one more character. -/
def step (s : Scan) (c : Char) : Except Failure Scan :=
  if isNumberChar c then .ok { s with digits := s.digits.push c }
  else if Text.isBlank c then .ok ⟨s.close, ""⟩
  else match Operator.ofSymbol? c with
    | some op => .ok ⟨pushOperator s.close op, ""⟩
    | none =>
      if c = '(' then .ok ⟨s.close.push .leftParen, ""⟩
      else if c = ')' then .ok ⟨s.close.push .rightParen, ""⟩
      else if c = '%' then .ok ⟨s.close.push .percent, ""⟩
      else .error (.invalidCharacter c)

/-- Reads some characters, one after the other. -/
def run (s : Scan) (text : List Char) : Except Failure Scan := text.foldlM step s

@[simp] theorem run_nil (s : Scan) : s.run [] = .ok s := rfl

theorem run_append (s : Scan) (a b : List Char) :
    s.run (a ++ b) = (s.run a).bind fun s' => s'.run b := by
  simp only [run, List.foldlM_append]
  rfl

end Scan

/-- The tokens of a text. -/
def tokenize (expression : String) : Except Failure (List Token) :=
  (Scan.empty.run expression.toList).map fun s => s.close.toList

end DeskCalculator.Expression
