import DeskCalculator.Json.Lexing

/-!
# DeskCalculator.Json.Reading

From a text to the value that it is the written form of. The lexemes are taken one by one; what is
open around the current place is kept on a stack.

A text can be refused for two reasons, and the reason met first counts: it is not well formed, or
it holds an integer of more than 4300 digits.

**What is left out.** The depth of a value is not limited here. A reader that keeps what is open on
the stack of its machine gives up on a text with too many brackets inside one another, about a
thousand of them, and reading a history is not prepared for that. So what is stated about history
files is stated of files that stay below such a limit.
-/

namespace DeskCalculator.Json

/-- Why a text is no written form of a value. -/
inductive Refusal
  | malformed
  /-- An integer has too many digits. -/
  | hugeInteger
  deriving DecidableEq, Repr

/-- How many digits an integer may have. -/
def integerDigitLimit : Nat := 4300

/-- Whether the text of a number is that of an integer with too many digits. A fraction or an
exponent makes it none. -/
def isHugeInteger (text : String) : Bool :=
  text.toList.all (fun c => c.isDigit || c == '-') &&
    integerDigitLimit < (text.toList.filter Char.isDigit).length

/-- An array or object that is open, with what it holds so far, the latest first. -/
inductive Frame
  /-- An array; its next item is being read. -/
  | items (done : List Value)
  /-- An object; the value of this name is being read. -/
  | members (done : List (LooseText × Value)) (name : LooseText)
  deriving Repr

/-- What has just been read, or must come next. -/
inductive Focus
  | value
  | arrayStart
  | objectStart
  /-- A further member must come, after these. -/
  | name (done : List (LooseText × Value))
  /-- The name of a member has been read, after these. -/
  | colon (done : List (LooseText × Value)) (name : LooseText)
  | complete (value : Value)
  deriving Repr

/-- A value read in part. -/
structure Reading where
  /-- What is open, the innermost first. -/
  frames : List Frame
  focus : Focus
  deriving Repr

namespace Reading

/-- Nothing has been read yet, and a value must come. -/
def start : Reading := ⟨[], .value⟩

/-- Takes the first lexeme of a value. -/
def beginValue (frames : List Frame) : Lexeme → Except Refusal Reading
  | .word word => .ok ⟨frames, .complete (.word word)⟩
  | .number text =>
    if isHugeInteger text then .error .hugeInteger
    else .ok ⟨frames, .complete (.number text)⟩
  | .string text => .ok ⟨frames, .complete (.string text)⟩
  | .openBracket => .ok ⟨frames, .arrayStart⟩
  | .openBrace => .ok ⟨frames, .objectStart⟩
  | _ => .error .malformed

/-- Takes the lexeme after a complete value. -/
def endValue (value : Value) : List Frame → Lexeme → Except Refusal Reading
  | .items done :: outer, .comma => .ok ⟨.items (value :: done) :: outer, .value⟩
  | .items done :: outer, .closeBracket =>
    .ok ⟨outer, .complete (.array (value :: done).reverse)⟩
  | .members done name :: outer, .comma => .ok ⟨outer, .name ((name, value) :: done)⟩
  | .members done name :: outer, .closeBrace =>
    .ok ⟨outer, .complete (.object ((name, value) :: done).reverse)⟩
  | _, _ => .error .malformed

/-- Takes the next lexeme, whatever is awaited. -/
def step (s : Reading) (lexeme : Lexeme) : Except Refusal Reading :=
  match s.focus, lexeme with
  | .value, lexeme => beginValue s.frames lexeme
  | .arrayStart, .closeBracket => .ok ⟨s.frames, .complete (.array [])⟩
  | .arrayStart, lexeme => beginValue (.items [] :: s.frames) lexeme
  | .objectStart, .closeBrace => .ok ⟨s.frames, .complete (.object [])⟩
  | .objectStart, .string name => .ok ⟨s.frames, .colon [] name⟩
  | .name done, .string name => .ok ⟨s.frames, .colon done name⟩
  | .colon done name, .colon => .ok ⟨.members done name :: s.frames, .value⟩
  | .complete value, lexeme => endValue value s.frames lexeme
  | _, _ => .error .malformed

/-- Takes some lexemes, one after the other. -/
def run (s : Reading) (lexemes : List Lexeme) : Except Refusal Reading := lexemes.foldlM step s

/-- The value that has been read, if it is complete and nothing is open around it. -/
def close : Reading → Except Refusal Value
  | ⟨[], .complete value⟩ => .ok value
  | _ => .error .malformed

@[simp] theorem run_nil (s : Reading) : s.run [] = .ok s := rfl

theorem run_append (s : Reading) (a b : List Lexeme) :
    s.run (a ++ b) = (s.run a).bind fun s' => s'.run b := by
  simp only [run, List.foldlM_append]
  rfl

end Reading

/-- The value that some lexemes are the written form of. -/
def ofLexemes (lexemes : List Lexeme) : Except Refusal Value :=
  (Reading.start.run lexemes).bind Reading.close

/-- The value that a text is the written form of. -/
def parse (text : String) : Except Refusal Value := ofLexemes (lex text.toList)

end DeskCalculator.Json
