import DeskCalculator.Json.Value

/-!
# DeskCalculator.Json.Lexing

The lexemes of a text. Between them stand spaces, tabs, line feeds and carriage returns; a
lexeme is as long as it can be. Where the text goes on with nothing of the kind, a piece of junk
ends the list.

* **Strings** hold no control character below the space. An escape names a character by a letter
  or by its code in four hexadecimal digits, two such codes together if they are a surrogate pair.
  A surrogate without its partner stays in the text as it is.
* **Numbers** have no leading zeros, and digits on both sides of a point and behind the letter of
  an exponent. What looks like the start of a fraction or an exponent and is none does not belong
  to the number.
-/

namespace DeskCalculator.Json

/-- Whether a character may stand between lexemes. -/
def isSpace (c : Char) : Bool := [' ', '\t', '\n', '\r'].contains c

/-! ## Strings -/

/-- The number that four hexadecimal digits denote. -/
def codeUnit? (a b c d : Char) : Option Nat :=
  match Text.hexDigit? a, Text.hexDigit? b, Text.hexDigit? c, Text.hexDigit? d with
  | some a, some b, some c, some d => some (((a * 16 + b) * 16 + c) * 16 + d)
  | _, _, _, _ => none

/-- Whether a code is that of the first half of a surrogate pair. -/
def isHighSurrogate (code : Nat) : Bool := 0xD800 ≤ code && code < 0xDC00

/-- Whether a code is that of the second half of a surrogate pair. -/
def isLowSurrogate (code : Nat) : Bool := 0xDC00 ≤ code && code < 0xE000

/-- The character that a pair of surrogates stands for. -/
def joinSurrogates (high low : Nat) : Char :=
  Char.ofNat (0x10000 + (high - 0xD800) * 0x400 + (low - 0xDC00))

/-- The code point of a code that is not part of a pair. -/
def unpaired (code : Nat) : CodePoint :=
  if h : 0xD800 ≤ code ∧ code < 0xE000 then .surrogate ⟨code, h.1, h.2⟩
  else .char (Char.ofNat code)

/-- The character that a letter behind a backslash stands for. -/
def unescape? : Char → Option Char
  | '"' => some '"'
  | '\\' => some '\\'
  | '/' => some '/'
  | 'b' => some '\x08'
  | 'f' => some '\x0c'
  | 'n' => some '\n'
  | 'r' => some '\r'
  | 't' => some '\t'
  | _ => none

/-- One step of a string as written. -/
inductive Piece
  /-- A character, by itself or by its letter. -/
  | char (c : Char)
  /-- A code of four hexadecimal digits. -/
  | code (code : Nat)
  deriving DecidableEq, Repr

/-- The pieces of a string, read from behind its opening quote, and what follows its closing
quote. -/
def takePieces? : List Char → Option (List Piece × List Char)
  | [] => none
  | '"' :: rest => some ([], rest)
  | '\\' :: 'u' :: a :: b :: c :: d :: rest =>
    match codeUnit? a b c d with
    | none => none
    | some code => (takePieces? rest).map fun (pieces, rest) => (.code code :: pieces, rest)
  | '\\' :: letter :: rest =>
    match unescape? letter with
    | none => none
    | some c => (takePieces? rest).map fun (pieces, rest) => (.char c :: pieces, rest)
  | c :: rest =>
    if c.toNat < 0x20 ∨ c = '\\' then none
    else (takePieces? rest).map fun (pieces, rest) => (.char c :: pieces, rest)

/-- The text of a string: surrogate pairs are joined. -/
def joinPieces : List Piece → List CodePoint
  | [] => []
  | .char c :: rest => .char c :: joinPieces rest
  | [.code code] => [unpaired code]
  | .code code :: .char c :: rest => unpaired code :: joinPieces (.char c :: rest)
  | .code high :: .code low :: rest =>
    if isHighSurrogate high && isLowSurrogate low then
      .char (joinSurrogates high low) :: joinPieces rest
    else unpaired high :: joinPieces (.code low :: rest)

/-! ## Numbers and words -/

/-- The digits at the start of a text, and what follows. -/
def takeDigits (text : List Char) : List Char × List Char :=
  (text.takeWhile Char.isDigit, text.dropWhile Char.isDigit)

/-- The integer part at the start of a text, without a sign: a zero, or digits that begin with
none. -/
def takeInteger? : List Char → Option (List Char × List Char)
  | '0' :: rest => some (['0'], rest)
  | text =>
    match takeDigits text with
    | ([], _) => none
    | found => some found

/-- The fraction at the start of a text, with its point; empty if there is none. -/
def takeFraction : List Char → List Char × List Char
  | '.' :: rest =>
    match takeDigits rest with
    | ([], _) => ([], '.' :: rest)
    | (digits, rest') => ('.' :: digits, rest')
  | text => ([], text)

/-- The sign at the start of the digits of an exponent, empty if there is none. -/
def takeExponentSign : List Char → List Char × List Char
  | '+' :: rest => (['+'], rest)
  | '-' :: rest => (['-'], rest)
  | text => ([], text)

/-- The exponent at the start of a text, with its letter; empty if there is none. -/
def takeExponent : List Char → List Char × List Char
  | [] => ([], [])
  | letter :: rest =>
    if letter = 'e' ∨ letter = 'E' then
      let (sign, afterSign) := takeExponentSign rest
      match takeDigits afterSign with
      | ([], _) => ([], letter :: rest)
      | (digits, rest') => (letter :: sign ++ digits, rest')
    else ([], letter :: rest)

/-- The magnitude of a number at the start of a text. -/
def takeMagnitude? (text : List Char) : Option (List Char × List Char) :=
  (takeInteger? text).map fun (integer, rest) =>
    let (fraction, rest) := takeFraction rest
    let (exponent, rest) := takeExponent rest
    (integer ++ fraction ++ exponent, rest)

/-- The number at the start of a text. -/
def takeNumber? : List Char → Option (List Char × List Char)
  | '-' :: rest => (takeMagnitude? rest).map fun (digits, rest) => ('-' :: digits, rest)
  | text => takeMagnitude? text

/-- What follows a text that a longer one begins with. -/
def dropStart? : List Char → List Char → Option (List Char)
  | [], rest => some rest
  | _ :: _, [] => none
  | c :: start, d :: rest => if c = d then dropStart? start rest else none

/-- The word at the start of a text. -/
def takeWord? (text : List Char) : Option (Word × List Char) :=
  Word.all.findSome? fun word => (dropStart? word.spelling.toList text).map fun rest => (word, rest)

/-! ## Lexemes -/

/-- The lexeme at the start of a text that begins with no space, and what follows. -/
def takeLexeme? : List Char → Option (Lexeme × List Char)
  | [] => none
  | '[' :: rest => some (.openBracket, rest)
  | ']' :: rest => some (.closeBracket, rest)
  | '{' :: rest => some (.openBrace, rest)
  | '}' :: rest => some (.closeBrace, rest)
  | ',' :: rest => some (.comma, rest)
  | ':' :: rest => some (.colon, rest)
  | '"' :: rest =>
    (takePieces? rest).map fun (pieces, rest) => (.string ⟨joinPieces pieces⟩, rest)
  | text =>
    match takeWord? text with
    | some (word, rest) => some (.word word, rest)
    | none => (takeNumber? text).map fun (number, rest) => (.number (String.ofList number), rest)

/-- Reads lexemes, at most as many as the first argument says. -/
def lexUpTo : Nat → List Char → List Lexeme
  | 0, _ => []
  | bound + 1, text =>
    match text.dropWhile isSpace with
    | [] => []
    | rest =>
      match takeLexeme? rest with
      | none => [.junk]
      | some (lexeme, rest) => lexeme :: lexUpTo bound rest

/-- The lexemes of a text. There are no more of them than characters. -/
def lex (text : List Char) : List Lexeme := lexUpTo text.length text

end DeskCalculator.Json
