import DeskCalculator.Text.CharacterClass
import DeskCalculator.Text.CodePoint

/-!
# DeskCalculator.Input

The line on which an expression is typed, and its editing rules. Whether the line is an expression
that has a value is not asked here.

* **Segments.** Operators, parentheses and percent signs cut the line into segments; the rules for
  digits and points look at the last one only.
* **Digits.** A digit typed after a lone zero replaces it.
* **Points.** A segment has at most one point, and one that would begin with a point begins with a
  zero instead.
* **Percent signs** do not start a line.
* **Surrogates** may come with an expression of the history that is put on the line. To the rules
  they are characters like any other that the rules do not name.
-/

namespace DeskCalculator

/-- The line on which an expression is typed. -/
structure Input where
  /-- What the line holds. -/
  text : LooseText
  deriving DecidableEq, Repr

namespace Input

/-- Whether a character ends a segment. -/
def isSegmentEnd (c : Char) : Bool := ['+', '-', '*', '/', '(', ')', '%'].contains c

/-- Whether a code point ends a segment. -/
def endsSegment : CodePoint → Bool
  | .char c => isSegmentEnd c
  | .surrogate _ => false

/-- What stands after the last operator, parenthesis or percent sign. -/
def lastSegment (text : List CodePoint) : List CodePoint :=
  (text.reverse.takeWhile fun point => !endsSegment point).reverse

/-- The empty line. -/
def empty : Input := ⟨""⟩

/-- What is shown of a line. -/
def shown (input : Input) : LooseText := if input.text = "" then "0" else input.text

/-- Whether a key types a decimal digit. -/
def isDigitKey (key : List CodePoint) : Bool :=
  match key with
  | [.char c] => Text.isDecimalDigit c
  | _ => false

/-- The line after a key, unless the rules refuse it. -/
def typed? (text key : List CodePoint) : Option (List CodePoint) :=
  if isDigitKey key ∧ lastSegment text = [.char '0'] then some (text.dropLast ++ key)
  else if key = [.char '.'] then
    if (lastSegment text).contains (.char '.') then none
    else if lastSegment text = [] then some (text ++ [.char '0', .char '.'])
    else some (text ++ key)
  else if key = [.char '%'] ∧ text = [] then none
  else some (text ++ key)

/-- Types a key; the flag says whether the rules let it through. -/
def press (input : Input) (key : LooseText) : Input × Bool :=
  match typed? input.text.points key.points with
  | some text => (⟨⟨text⟩⟩, true)
  | none => (input, false)

/-- Takes back the last character. -/
def backspace (input : Input) : Input := ⟨⟨input.text.points.dropLast⟩⟩

/-- Takes back all characters. -/
def clear (_ : Input) : Input := empty

/-- Puts a text in the place of what the line holds. -/
def set (_ : Input) (text : LooseText) : Input := ⟨text⟩

end Input

end DeskCalculator
