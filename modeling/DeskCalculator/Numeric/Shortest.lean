import DeskCalculator.Numeric.Binary64

/-!
# DeskCalculator.Numeric.Shortest

The shortest decimal of a binary number: among the decimals that read back as the same value one
with the fewest digits, and among those the one closest to the value, a tie going to the even
last digit.

* **Grids.** The decimals with a given last place form a grid. If a point of a grid reads back,
  so does one of the value's two neighbours on it, so no other point needs to be tested.
* **Search.** Grids are tried from the coarsest, whose last place is that of the leading digit, to
  the one that gives seventeen digits, and the first with a hit wins. Seventeen digits always
  suffice; were there no hit, the exact value would be the answer, which reads back as well.
-/

namespace DeskCalculator.Numeric

/-- The rank of the value nearest to a decimal. -/
def Decimal.nearestRank (d : Decimal) : Nat :=
  Binary64.nearestRank (d.numerator * Binary64.unitsPerOne) d.denominator

namespace Binary64

/-- For a positive number of units, the least `k` with value below `10 ^ k`. -/
def leadingPlace (units : Nat) : Int :=
  if unitsPerOne ≤ units then digitCount (units / unitsPerOne)
  else 1 - (digitCount ((unitsPerOne - 1) / units) : Int)

/-- The choice between a point and the next one, from whether each of them is a hit; if both are,
it is the closer one. -/
def chooseHit (below above : Bool) (point closer : Nat) : Option Nat :=
  match below, above with
  | true, true => some closer
  | true, false => some point
  | false, true => some (point + 1)
  | false, false => none

/-- The neighbour of the value of a rank on the grid of multiples of `10 ^ exponent` that reads
back as that rank, the closer one if both do. -/
def onGrid? (rank : Nat) (exponent : Int) : Option Nat :=
  let n := units rank * Nat.pow 10 (-exponent).toNat
  let d := unitsPerOne * Nat.pow 10 exponent.toNat
  let readsBack (coefficient : Nat) := Decimal.nearestRank ⟨coefficient, exponent⟩ == rank
  chooseHit (readsBack (n / d)) (readsBack (n / d + 1)) (n / d) (roundHalfEven n d)

/-- The grids worth trying for a positive number of units, the coarsest first. -/
def grids (units : Nat) : List Int :=
  (List.range 17).map fun (more : Nat) => leadingPlace units - 1 - more

/-- The value of a rank as a decimal, exactly. -/
def exactDecimal (rank : Nat) : Decimal :=
  Decimal.trimmed (units rank * Nat.pow 5 1074) (-1074)

/-- The shortest decimal of the value of a rank, without trailing zeros in its coefficient. -/
def shortest (rank : Nat) : Decimal :=
  if rank = 0 then ⟨0, 0⟩
  else
    ((grids (units rank)).findSome? fun exponent =>
      (onGrid? rank exponent).map fun coefficient => Decimal.trimmed coefficient exponent).getD
      (exactDecimal rank)

@[simp] theorem shortest_zero : shortest 0 = ⟨0, 0⟩ := rfl

end Binary64

end DeskCalculator.Numeric
