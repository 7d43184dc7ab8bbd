/-!
# DeskCalculator.Numeric.Decimal

Non-negative decimal numbers, a natural coefficient times a power of ten, and their positional
text. Signs are kept elsewhere, beside the magnitude.

Quotients of natural numbers are rounded to the nearest natural number under two rules for a
quotient halfway between two: to the even neighbour, where binary numbers are made, and upwards,
where results are rounded.
-/

namespace DeskCalculator.Numeric

/-! ## Rounded quotients -/

/-- The quotient `n / d` rounded to nearest, a half going to the even neighbour. -/
def roundHalfEven (n d : Nat) : Nat :=
  if 2 * (n % d) < d then n / d
  else if d < 2 * (n % d) then n / d + 1
  else if n / d % 2 = 0 then n / d
  else n / d + 1

/-- The quotient `n / d` rounded to nearest, a half going up. -/
def roundHalfUp (n d : Nat) : Nat := (2 * n + d) / (2 * d)

/-- The rounded quotient is one of the two neighbours of the exact one. -/
theorem roundHalfEven_eq_or (n d : Nat) :
    roundHalfEven n d = n / d ∨ roundHalfEven n d = n / d + 1 := by
  unfold roundHalfEven
  split
  · exact .inl rfl
  · split
    · exact .inr rfl
    · split
      · exact .inl rfl
      · exact .inr rfl

/-! ## Decimal numbers -/

/-- How many decimal digits the numeral of a natural number has; zero has one. -/
def digitCount (n : Nat) : Nat := (Nat.toDigits 10 n).length

/-- The decimal number `coefficient * 10 ^ exponent`. -/
structure Decimal where
  /-- The digits, read as one natural number. -/
  coefficient : Nat
  /-- The power of ten that they are multiples of. -/
  exponent : Int
  deriving DecidableEq, Repr

namespace Decimal

/-- The numerator of the number as a fraction of natural numbers. -/
def numerator (d : Decimal) : Nat := d.coefficient * Nat.pow 10 d.exponent.toNat

/-- The denominator of the number as a fraction of natural numbers, a power of ten. -/
def denominator (d : Decimal) : Nat := Nat.pow 10 (-d.exponent).toNat

theorem denominator_pos (d : Decimal) : 0 < d.denominator :=
  Nat.pow_pos (by decide)

/-- The same number with the trailing zeros of its coefficient moved into the exponent. -/
def trimmed (coefficient : Nat) (exponent : Int) : Decimal :=
  if coefficient ≠ 0 ∧ coefficient % 10 = 0 then trimmed (coefficient / 10) (exponent + 1)
  else ⟨coefficient, exponent⟩
termination_by coefficient
decreasing_by omega

/-- How many multiples of `10 ^ -places` are closest to a decimal, a half going up. -/
def roundTo (places : Nat) (d : Decimal) : Nat :=
  let exponent := d.exponent + places
  if 0 ≤ exponent then d.coefficient * Nat.pow 10 exponent.toNat
  else roundHalfUp d.coefficient (Nat.pow 10 (-exponent).toNat)

/-- The digits of a natural number below `10 ^ width`, filled up with zeros on the left. -/
def paddedDigits (width n : Nat) : List Char :=
  let digits := Nat.toDigits 10 n
  List.replicate (width - digits.length) '0' ++ digits

/-- The number in positional notation, with as many places after the point as the exponent asks
for, and without a point if it asks for none. -/
def positional (d : Decimal) : List Char :=
  match d.exponent with
  | .ofNat zeros => Nat.toDigits 10 (d.coefficient * Nat.pow 10 zeros)
  | .negSucc places =>
    let unit := Nat.pow 10 (places + 1)
    Nat.toDigits 10 (d.coefficient / unit) ++
      '.' :: paddedDigits (places + 1) (d.coefficient % unit)

end Decimal

end DeskCalculator.Numeric
