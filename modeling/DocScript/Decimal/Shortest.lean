import DocScript.Decimal.Binary

/-!
# Fewest digits that read back

A floating-point number stands for all reals that are rounded to it. Among the
decimals of that interval the shortest is found by trying grids of decimals from
coarse to fine: the grid of step `10 ^ j` is tried at the two points around the
number, and the first grid with a point in the interval wins. Of two points in
the interval the nearer is taken, and the upper one when both are equally near.
All comparisons are between whole numbers.
-/

namespace DocScript
namespace Decimal

/-- A decimal `digits * 10 ^ exponent`. -/
structure Point where
  digits : Nat
  exponent : Int
deriving DecidableEq

/--
Compares `a * 2 ^ p` with `b * 10 ^ j` by clearing the negative powers on both
sides.
-/
def compareScaled (a : Nat) (p : Int) (b : Nat) (j : Int) : Ordering :=
  compare (a * twoPow p.toNat * tenPow (-j).toNat) (b * tenPow j.toNat * twoPow (-p).toNat)

namespace Binary

/-- Four times the significand, less the distance to the lower end of the interval. -/
def lowerEnd (x : Binary) : Nat :=
  4 * x.significand - if x.narrowBelow then 1 else 2

/-- Four times the significand and the distance to the upper end of the interval. -/
def upperEnd (x : Binary) : Nat :=
  4 * x.significand + 2

/--
Whether a decimal is rounded to the number: it lies between the ends, which
count only for an even significand.
-/
def admits (x : Binary) (point : Point) : Bool :=
  let p := x.exponent - 2
  let below := compareScaled x.lowerEnd p point.digits point.exponent
  let above := compareScaled x.upperEnd p point.digits point.exponent
  if x.significand % 2 = 0 then below != .gt && above != .lt
  else below == .lt && above == .gt

/-- The largest point at or below the number on the grid of step `10 ^ j`. -/
def floorAt (x : Binary) (j : Int) : Nat :=
  (x.significand * twoPow x.exponent.toNat * tenPow (-j).toNat) /
    (tenPow j.toNat * twoPow (-x.exponent).toNat)

/-- Whether the upper of two neighbours on a grid is at least as near as the lower one. -/
def nearerAbove (x : Binary) (low : Nat) (j : Int) : Bool :=
  compareScaled (2 * x.significand) x.exponent (2 * low + 1) j != .lt

/-- The point taken from the grid of step `10 ^ j`, if one of the two neighbours is admitted. -/
def hit? (x : Binary) (j : Int) : Option Point :=
  let low := x.floorAt j
  let down : Point := ⟨low, j⟩
  let up : Point := ⟨low + 1, j⟩
  if x.admits down then
    if x.admits up && x.nearerAbove low j then some up else some down
  else if x.admits up then some up
  else none

/-- The number itself as a decimal. -/
def exact (x : Binary) : Point :=
  if 0 ≤ x.exponent then ⟨x.significand * twoPow x.exponent.toNat, 0⟩
  else ⟨x.significand * Nat.pow 5 (-x.exponent).toNat, x.exponent⟩

/-- Tries grids from step `10 ^ j` down. -/
def shortestFrom (x : Binary) : Nat → Int → Point
  | 0, _ => x.exact
  | grids + 1, j =>
      match x.hit? j with
      | some point => point
      | none => shortestFrom x grids (j - 1)

/-- A grid too coarse to have a point other than zero near the number. -/
def coarsest (x : Binary) : Int :=
  (x.exponent + 53) * 30103 / 100000 + 2

/-- The shortest decimal that is rounded to the number. -/
def shortest (x : Binary) : Point :=
  x.shortestFrom 800 x.coarsest

end Binary
end Decimal
end DocScript
