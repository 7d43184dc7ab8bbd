import DeskCalculator.Numeric.Binary64

/-!
# DeskCalculator.Numeric.Arithmetic

The four operations on binary numbers. Between finite values each is the exact result, rounded
once; the rest are the rules for zeros, infinities and results that are no number.

* **Sums.** A sum that is exactly zero is positive, unless both terms are negative zeros.
* **Products and quotients.** The sign is minus if exactly one operand is negative, for zeros and
  infinities as well.
-/

namespace DeskCalculator.Numeric.Binary64

/-- The number with the other sign. -/
def neg : Binary64 → Binary64
  | .finite x => .finite x.neg
  | .infinite negative => .infinite !negative
  | .nan => .nan

/-- The sum of two finite values. -/
def Finite.add (x y : Finite) : Binary64 :=
  let sum := x.signedUnits + y.signedUnits
  if sum = 0 then zero (x.negative && y.negative)
  else ofFraction (decide (sum < 0)) sum.natAbs 1

/-- The product of two finite values. -/
def Finite.mul (x y : Finite) : Binary64 :=
  ofFraction (x.negative != y.negative) (x.magnitude * y.magnitude) unitsPerOne

/-- The quotient of two finite values. -/
def Finite.div (x y : Finite) : Binary64 :=
  if y.isZero then
    if x.isZero then .nan else .infinite (x.negative != y.negative)
  else ofFraction (x.negative != y.negative) (x.magnitude * unitsPerOne) y.magnitude

/-- Addition. -/
def add : Binary64 → Binary64 → Binary64
  | .nan, _ => .nan
  | _, .nan => .nan
  | .infinite s, .infinite t => if s = t then .infinite s else .nan
  | .infinite s, .finite _ => .infinite s
  | .finite _, .infinite t => .infinite t
  | .finite x, .finite y => x.add y

/-- Subtraction: addition of the number with the other sign. -/
def sub (x y : Binary64) : Binary64 := add x (neg y)

/-- Multiplication. -/
def mul : Binary64 → Binary64 → Binary64
  | .nan, _ => .nan
  | _, .nan => .nan
  | .infinite s, .infinite t => .infinite (s != t)
  | .infinite s, .finite y => if y.isZero then .nan else .infinite (s != y.negative)
  | .finite x, .infinite t => if x.isZero then .nan else .infinite (x.negative != t)
  | .finite x, .finite y => x.mul y

/-- Division. -/
def div : Binary64 → Binary64 → Binary64
  | .nan, _ => .nan
  | _, .nan => .nan
  | .infinite _, .infinite _ => .nan
  | .infinite s, .finite y => .infinite (s != y.negative)
  | .finite x, .infinite t => zero (x.negative != t)
  | .finite x, .finite y => x.div y

@[simp] theorem add_finite (x y : Finite) : add (.finite x) (.finite y) = x.add y := rfl
@[simp] theorem mul_finite (x y : Finite) : mul (.finite x) (.finite y) = x.mul y := rfl
@[simp] theorem div_finite (x y : Finite) : div (.finite x) (.finite y) = x.div y := rfl

end DeskCalculator.Numeric.Binary64
