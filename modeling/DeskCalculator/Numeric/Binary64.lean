import DeskCalculator.Numeric.Decimal

/-!
# DeskCalculator.Numeric.Binary64

The binary numbers of 64 bits that the calculator computes with.

* **Units.** Every finite value is a multiple of `2 ^ -1074`, the least positive value. Values are
  handled as natural numbers of these units, so no step is inexact before the last one rounds.
* **Rank.** The non-negative values in ascending order are numbered from zero. The rank of a value
  is also its bit pattern without the sign, so the successor of a rank is the next value, carries
  into the exponent included, and the value after the greatest one stands for an overflow.
* **Rounding.** A fraction becomes the value nearest to it, a half going to the even rank.
-/

namespace DeskCalculator.Numeric

namespace Binary64

/-- How many values share one exponent, `2 ^ 52`. -/
def fractionCount : Nat := 4503599627370496

/-- How many units make one, `2 ^ 1074`. -/
def unitsPerOne : Nat := Nat.pow 2 1074

/-- How many non-negative finite values there are; every finite rank is below. -/
def rankBound : Nat := 2047 * fractionCount

/-- The value of a rank, in units. The first two rows of values are spaced by one unit, and each
later row twice as far as the row before. -/
def units (rank : Nat) : Nat :=
  if rank < fractionCount then rank
  else (fractionCount + rank % fractionCount) * Nat.pow 2 (rank / fractionCount - 1)

/-- The rank of the value nearest to `n / d` units, a half going to the even rank. The result is at
least `rankBound` if the fraction is too large for every finite value. -/
def nearestRank (n d : Nat) : Nat :=
  let shift := Nat.log2 (n / d) - 52
  shift * fractionCount + roundHalfEven n (d * Nat.pow 2 shift)

/-- A finite value: a sign and the rank of its magnitude. Zero has both signs. -/
structure Finite where
  /-- Whether the sign is minus. -/
  negative : Bool
  /-- The place of the magnitude among the non-negative values. -/
  rank : Nat
  /-- The magnitude is finite. -/
  rank_lt : rank < rankBound
  deriving DecidableEq

end Binary64

/-- A binary number of 64 bits. -/
inductive Binary64
  | finite (value : Binary64.Finite)
  /-- Infinity of one sign. -/
  | infinite (negative : Bool)
  | nan
  deriving DecidableEq

namespace Binary64

/-- Zero of one sign. -/
def zero (negative : Bool) : Binary64 := .finite ⟨negative, 0, by decide⟩

/-- The value nearest to `n / d` units, infinite if that is too large. -/
def ofFraction (negative : Bool) (n d : Nat) : Binary64 :=
  let rank := nearestRank n d
  if h : rank < rankBound then .finite ⟨negative, rank, h⟩ else .infinite negative

/-- The value nearest to a natural number. -/
def ofNat (n : Nat) : Binary64 := ofFraction false (n * unitsPerOne) 1

namespace Finite

/-- The value without its sign, in units. -/
def magnitude (x : Finite) : Nat := units x.rank

/-- The value itself, in units. -/
def signedUnits (x : Finite) : Int := if x.negative then -x.magnitude else x.magnitude

/-- The value with the other sign. -/
def neg (x : Finite) : Finite := { x with negative := !x.negative }

/-- Whether a value is zero, of whichever sign. -/
def isZero (x : Finite) : Bool := x.rank == 0

/-- The 64 bits of a value, as a natural number. -/
def toBits (x : Finite) : Nat := (if x.negative then Nat.pow 2 63 else 0) + x.rank

@[simp] theorem signedUnits_neg (x : Finite) : x.neg.signedUnits = -x.signedUnits := by
  cases x with
  | mk negative rank h => cases negative <;> simp [neg, signedUnits, magnitude]

end Finite

/-- The value of a pattern of 64 bits. -/
def ofBits (bits : Nat) : Binary64 :=
  let negative := Nat.pow 2 63 ≤ bits
  let rank := bits % Nat.pow 2 63
  if h : rank < rankBound then .finite ⟨negative, rank, h⟩
  else if rank = rankBound then .infinite negative
  else .nan

/-- The finite value that a number is, if it is one. -/
def finite? : Binary64 → Option Finite
  | .finite x => some x
  | _ => none

/-- Whether a number is finite. -/
def isFinite (x : Binary64) : Bool := x.finite?.isSome

/-- Whether a number is zero, of whichever sign. -/
def isZero : Binary64 → Bool
  | .finite x => x.isZero
  | _ => false

@[simp] theorem finite?_finite (x : Finite) : (finite x).finite? = some x := rfl
@[simp] theorem finite?_infinite (s : Bool) : (infinite s).finite? = none := rfl
@[simp] theorem finite?_nan : nan.finite? = none := rfl

end Binary64

end DeskCalculator.Numeric
