import DeskCalculator.Text.CodePoint

/-!
# DeskCalculator.Json.Value

Values of the data format that the history is kept in, the lexemes that they are written with, and
their written form.

* **Strings are loose texts,** since an escape can name a surrogate without its partner.
* **Numbers keep their text.** The history holds none, so they are never computed with.
* **Members keep their order,** and a name may occur twice; the last member of a name counts.
* **Words.** Beside `null`, `true` and `false` the three numbers that have no digits are words.
* **The written form** has one space behind commas and colons and no other. Strings stand in it as
  they are, but for quotes, backslashes and control characters below the space, which are escaped.
  So it is a loose text itself if one of the strings is.
-/

namespace DeskCalculator.Json

/-- A value that is one fixed word. -/
inductive Word
  | null
  | true
  | false
  | notANumber
  | infinity
  | minusInfinity
  deriving DecidableEq, Repr

/-- How a word is written. -/
def Word.spelling : Word → String
  | null => "null"
  | true => "true"
  | false => "false"
  | notANumber => "NaN"
  | infinity => "Infinity"
  | minusInfinity => "-Infinity"

/-- All words there are. -/
def Word.all : List Word := [null, true, false, notANumber, infinity, minusInfinity]

/-- A value that was read or is written. -/
inductive Value
  | word (word : Word)
  /-- A number, as written. -/
  | number (text : String)
  /-- A string. -/
  | string (text : LooseText)
  | array (items : List Value)
  /-- Named values, in order. -/
  | object (members : List (LooseText × Value))
  deriving Repr

/-- The last member of an object with a given name. -/
def Value.member? (name : LooseText) (members : List (LooseText × Value)) : Option Value :=
  (members.reverse.find? fun member => member.1 == name).map (·.2)

/-- The text of a value that is a string. -/
def Value.string? : Value → Option LooseText
  | string text => some text
  | _ => none

/-- The smallest meaningful parts of a written value. -/
inductive Lexeme
  | word (word : Word)
  /-- A number, as written. -/
  | number (text : String)
  /-- A string, without its quotes and escapes. -/
  | string (text : LooseText)
  | openBracket
  | closeBracket
  | openBrace
  | closeBrace
  | comma
  | colon
  /-- Text that is no lexeme. Nothing after it is looked at. -/
  | junk
  deriving DecidableEq, Repr

mutual

/-- The lexemes of a value. -/
def Value.lexemes : Value → List Lexeme
  | .word word => [.word word]
  | .number text => [.number text]
  | .string text => [.string text]
  | .array items => .openBracket :: (itemLexemes items ++ [.closeBracket])
  | .object members => .openBrace :: (memberLexemes members ++ [.closeBrace])

/-- The lexemes of the items of an array, with commas between. -/
def itemLexemes : List Value → List Lexeme
  | [] => []
  | [item] => item.lexemes
  | item :: next :: rest => item.lexemes ++ .comma :: itemLexemes (next :: rest)

/-- The lexemes of the members of an object, with commas between. -/
def memberLexemes : List (LooseText × Value) → List Lexeme
  | [] => []
  | [(name, value)] => .string name :: .colon :: value.lexemes
  | (name, value) :: next :: rest =>
    .string name :: .colon :: (value.lexemes ++ .comma :: memberLexemes (next :: rest))

end

/-! ## Writing -/

/-- A character of a string, escaped if it has to be. -/
def writeChar (c : Char) : List Char :=
  if c = '"' then ['\\', '"']
  else if c = '\\' then ['\\', '\\']
  else if c = '\n' then ['\\', 'n']
  else if c = '\r' then ['\\', 'r']
  else if c = '\t' then ['\\', 't']
  else if c = '\x08' then ['\\', 'b']
  else if c = '\x0c' then ['\\', 'f']
  else if c.toNat < 0x20 then '\\' :: 'u' :: Text.hexDigits 4 c.toNat
  else [c]

/-- A code point of a string. A surrogate is not escaped. -/
def writePoint : CodePoint → List CodePoint
  | .char c => (writeChar c).map .char
  | .surrogate s => [.surrogate s]

/-- A string between quotes. -/
def writeString (text : LooseText) : List CodePoint :=
  .char '"' :: (text.points.flatMap writePoint ++ [.char '"'])

/-- A lexeme as text, with the space that follows it. Junk has no written form. -/
def Lexeme.write : Lexeme → List CodePoint
  | word w => w.spelling.toList.map .char
  | number text => text.toList.map .char
  | string text => writeString text
  | openBracket => [.char '[']
  | closeBracket => [.char ']']
  | openBrace => [.char '{']
  | closeBrace => [.char '}']
  | comma => [.char ',', .char ' ']
  | colon => [.char ':', .char ' ']
  | junk => []

/-- A value as text. -/
def Value.write (value : Value) : LooseText := ⟨value.lexemes.flatMap Lexeme.write⟩

end DeskCalculator.Json
