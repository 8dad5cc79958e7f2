/-!
# Binary numbers taken apart

A floating-point number that is neither infinite nor undefined is a significand
times a power of two, with a sign. The parts are read off the bits, so that
statements about the number become statements about whole numbers.
-/

namespace DocScript
namespace Decimal

/-- A power of two. -/
def twoPow (n : Nat) : Nat := Nat.pow 2 n

/-- A power of ten. -/
def tenPow (n : Nat) : Nat := Nat.pow 10 n

/-- A positive number `significand * 2 ^ exponent`, as a floating-point number holds it. -/
structure Binary where
  significand : Nat
  exponent : Int
  /-- Whether the next number below is only half as far away as the next one above. -/
  narrowBelow : Bool

/-- What the bits of a floating-point number say. -/
inductive Parts where
  | undefined
  | infinite (negative : Bool)
  | zero (negative : Bool)
  | finite (negative : Bool) (magnitude : Binary)

/-- The parts that 64 bits stand for. -/
def partsOfBits (bits : Nat) : Parts :=
  let negative := decide (twoPow 63 ≤ bits)
  let biased : Nat := bits / twoPow 52 % twoPow 11
  let fraction : Nat := bits % twoPow 52
  if biased = twoPow 11 - 1 then
    if fraction = 0 then .infinite negative else .undefined
  else if biased = 0 then
    if fraction = 0 then .zero negative else .finite negative ⟨fraction, -1074, false⟩
  else
    .finite negative
      ⟨twoPow 52 + fraction, (biased : Int) - 1075, fraction = 0 && 1 < biased⟩

/-- The parts of a floating-point number. -/
def partsOf (x : Float) : Parts :=
  partsOfBits x.toBits.toNat

end Decimal
end DocScript
