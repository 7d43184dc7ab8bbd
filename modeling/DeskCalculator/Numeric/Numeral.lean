import DeskCalculator.Numeric.Binary64
import DeskCalculator.Text.CharacterClass

/-!
# DeskCalculator.Numeric.Numeral

Reading a number from text.

* **Form.** White space on both sides, then a sign or none, digits with at most one point among
  or beside them, and at most one exponent: the letter `e`, a sign or none, digits. Digits are
  those of any script. A single underscore may stand between two digits.
* **Value.** The binary number nearest to the decimal that the text denotes. A text whose value is
  too large for that denotes no number.
-/

namespace DeskCalculator.Numeric

/-- A number as written: a sign and a decimal magnitude. -/
structure Numeral where
  negative : Bool
  decimal : Decimal
  deriving DecidableEq, Repr

namespace Numeral

open Text (isWhiteSpace isDecimalDigit digitsValue)

/-- The text without the white space at its two ends. -/
def trim (text : List Char) : List Char :=
  ((text.dropWhile isWhiteSpace).reverse.dropWhile isWhiteSpace).reverse

/-- The text without its underscores, if each of them stands between two digits. The flag says
whether the character before the text is a digit. -/
def dropUnderscores (afterDigit : Bool) : List Char → Option (List Char)
  | [] => some []
  | '_' :: c :: rest =>
    if afterDigit && isDecimalDigit c then (dropUnderscores true rest).map (c :: ·) else none
  | c :: rest =>
    if c = '_' then none else (dropUnderscores (isDecimalDigit c) rest).map (c :: ·)

/-- Splits off a sign; the flag says whether it is a minus. -/
def takeSign : List Char → Bool × List Char
  | '-' :: rest => (true, rest)
  | '+' :: rest => (false, rest)
  | text => (false, text)

/-- The exponent that the rest of a numeral denotes, zero if there is no rest. -/
def exponent? : List Char → Option Int
  | [] => some 0
  | letter :: rest =>
    let (negative, digits) := takeSign rest
    if (letter = 'e' ∨ letter = 'E') ∧ digits ≠ [] ∧ digits.all isDecimalDigit then
      some (if negative then -digitsValue digits else digitsValue digits)
    else none

/-- The digits before and after the point, and what follows them. -/
def splitPoint (text : List Char) : List Char × List Char × List Char :=
  let whole := text.takeWhile isDecimalDigit
  match text.dropWhile isDecimalDigit with
  | '.' :: rest => (whole, rest.takeWhile isDecimalDigit, rest.dropWhile isDecimalDigit)
  | rest => (whole, [], rest)

/-- The decimal that a numeral without sign and underscores denotes. -/
def decimal? (text : List Char) : Option Decimal :=
  let (whole, fraction, rest) := splitPoint text
  if whole = [] ∧ fraction = [] then none
  else (exponent? rest).map fun exponent =>
    ⟨digitsValue (whole ++ fraction), exponent - fraction.length⟩

/-- The number that a text is the numeral of. -/
def ofText? (text : List Char) : Option Numeral :=
  (dropUnderscores false (trim text)).bind fun plain =>
    let (negative, rest) := takeSign plain
    (decimal? rest).map fun decimal => ⟨negative, decimal⟩

end Numeral

namespace Binary64

/-- The value nearest to a signed decimal. A number with more than 310 digits before the point is
infinite and one with more than 330 zeros after it is zero, whatever its digits, and no power of
ten is formed for them. -/
def ofDecimal (negative : Bool) (d : Decimal) : Binary64 :=
  let lead := (digitCount d.coefficient : Int) + d.exponent
  if d.coefficient = 0 then zero negative
  else if 310 < lead then .infinite negative
  else if lead < -330 then zero negative
  else ofFraction negative (d.numerator * unitsPerOne) d.denominator

/-- The value nearest to a numeral. -/
def ofNumeral (n : Numeral) : Binary64 := ofDecimal n.negative n.decimal

/-- The finite value that a text denotes, if it is a numeral and not too large. -/
def Finite.ofText? (text : String) : Option Finite :=
  (Numeral.ofText? text.toList).bind fun n => (ofNumeral n).finite?

end Binary64

end DeskCalculator.Numeric
