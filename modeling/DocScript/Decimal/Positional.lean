import DocScript.Decimal.Shortest

/-!
# Numbers as text

Numbers are written in positional notation at any size, with the fewest digits
that read back. Zero has no sign.
-/

namespace DocScript
namespace Decimal

/-- The decimal digits of a whole number. -/
def digitsOf (n : Nat) : List Char :=
  Nat.toDigits 10 n

/-- Digits filled up with zeros on the left to a given length. -/
def padLeft (length : Nat) (digits : List Char) : List Char :=
  List.replicate (length - digits.length) '0' ++ digits

/-- A decimal in positional notation: a fraction is written only where there is one. -/
def Point.chars (point : Point) : List Char :=
  if 0 ≤ point.exponent then
    digitsOf (point.digits * tenPow point.exponent.toNat)
  else
    let places := (-point.exponent).toNat
    let digits := padLeft (places + 1) (digitsOf point.digits)
    digits.take (digits.length - places) ++ '.' :: digits.drop (digits.length - places)

/-- The text of a floating-point number. -/
def numberChars (x : Float) : List Char :=
  match partsOf x with
  | .undefined => ['N', 'a', 'N']
  | .infinite negative => if negative then ['-', 'i', 'n', 'f'] else ['i', 'n', 'f']
  | .zero _ => ['0']
  | .finite negative magnitude =>
      if negative then '-' :: magnitude.shortest.chars else magnitude.shortest.chars

end Decimal
end DocScript
