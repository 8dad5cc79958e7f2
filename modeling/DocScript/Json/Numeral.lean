import DocScript.Json.Basic
import DocScript.Json.Fault

/-!
# Numerals

Digits are gathered into a significand of 64 bits. While the significand has
room, a digit after the point lowers the exponent by one; a digit before the
point that finds no room raises it by one, and a digit after the point that
finds no room is dropped together with all that follow. A numeral without point
and exponent whose digits all found room is a whole number. Any other is the
significand scaled by a power of ten in floating point, which is not always the
number nearest to the numeral.
-/

namespace DocScript
namespace Json
namespace Numeral

/-- The ASCII digits. -/
def isDigit (b : UInt8) : Bool :=
  Byte.zero ≤ b && b ≤ Byte.nine

/-- The value of an ASCII digit. -/
def digitValue (b : UInt8) : Nat :=
  b.toNat - Byte.zero.toNat

/-- The largest significand, of 64 bits. -/
def maxSignificand : Nat := 18446744073709551615

/-- The largest exponent that a numeral may write, of 31 bits. -/
def maxExponent : Nat := 2147483647

/--
Adds digits to a significand until one finds no room: the significand and the
number of digits that are left over.
-/
def gather (significand : Nat) : Bytes → Nat × Nat
  | [] => (significand, 0)
  | d :: digits =>
      let next := significand * 10 + digitValue d
      if next ≤ maxSignificand then gather next digits
      else (significand, digits.length + 1)

/-- The floating-point number nearest to a power of ten. -/
def powerOfTen (n : Nat) : Float :=
  Float.ofScientific 1 false n

/--
Scales a number by a power of ten, in steps that stay within the range of
floating-point powers of ten. The result is absent when it would be infinite.
-/
def scale : Nat → Float → Int → Option Float
  | 0, x, _ => some x
  | steps + 1, x, exponent =>
      if exponent.natAbs ≤ 308 then
        if 0 ≤ exponent then
          let y := x * powerOfTen exponent.natAbs
          if y.isInf then none else some y
        else some (x / powerOfTen exponent.natAbs)
      else if x == 0 then some x
      else if 0 ≤ exponent then none
      else scale steps (x / powerOfTen 308) (exponent + 308)

/-- The number with the given sign. -/
def signed (negative : Bool) (x : Float) : Float :=
  if negative then -x else x

/-- The real number of a significand and an exponent; `rest` is what follows the numeral. -/
def realOf (negative : Bool) (significand : Nat) (exponent : Int) (rest : Bytes) :
    Except Stop (Number × Bytes) :=
  match scale (exponent.natAbs / 308 + 1) (floatOfNat significand) exponent with
  | some x => .ok (.real (signed negative x), rest)
  | none => .error ⟨.numberOutOfRange, rest.length⟩

/-- The largest significand that has a negative in 64 bits. -/
def maxNegated : Nat := 9223372036854775808

/-- The whole number of a significand, or a real one where that has no room. -/
def wholeOf (negative : Bool) (significand : Nat) : Number :=
  if !negative then .whole significand
  else if 0 < significand ∧ significand ≤ maxNegated then .whole (-(significand : Int))
  else .real (-floatOfNat significand)

/--
Digits of an exponent, after the first one. The result is absent at the digit
that takes the exponent out of range; what follows that digit comes with it.
-/
def gatherExponent (exponent : Nat) : Bytes → Option Nat × Bytes
  | [] => (some exponent, [])
  | d :: rest =>
      if isDigit d then
        let next := exponent * 10 + digitValue d
        if next ≤ maxExponent then gatherExponent next rest else (none, rest)
      else (some exponent, d :: rest)

/-- The sign of an exponent, which may be left out: whether it is minus, and what follows. -/
def exponentSign : Bytes → Bool × Bytes
  | Byte.plus :: rest => (false, rest)
  | Byte.minus :: rest => (true, rest)
  | rest => (false, rest)

/-- Reads the part of a numeral after the letter that announces an exponent. -/
def exponentPart (negative : Bool) (significand : Nat) (start : Int) (text : Bytes) :
    Except Stop (Number × Bytes) :=
  let (down, digits) := exponentSign text
  match digits with
  | [] => .error ⟨.eofInValue, 0⟩
  | d :: rest =>
      if isDigit d then
        match gatherExponent (digitValue d) rest with
        | (some exponent, rest) =>
            realOf negative significand (if down then start - exponent else start + exponent) rest
        | (none, rest) =>
            if significand ≠ 0 ∧ !down then .error ⟨.numberOutOfRange, rest.length⟩
            else .ok (.real (signed negative 0), rest.dropWhile isDigit)
      else .error ⟨.invalidNumber, rest.length⟩

/-- Reads what may follow the digits of a numeral that has a point: an exponent, or nothing. -/
def afterFraction (negative : Bool) (significand : Nat) (exponent : Int) :
    Bytes → Except Stop (Number × Bytes)
  | Byte.capitalE :: rest => exponentPart negative significand exponent rest
  | Byte.smallE :: rest => exponentPart negative significand exponent rest
  | rest => realOf negative significand exponent rest

/-- Reads the part of a numeral after the point. -/
def fractionPart (negative : Bool) (significand : Nat) (start : Int) (text : Bytes) :
    Except Stop (Number × Bytes) :=
  let digits := text.takeWhile isDigit
  let rest := text.dropWhile isDigit
  if digits.isEmpty then
    match rest with
    | [] => .error ⟨.eofInValue, 0⟩
    | _ :: beyond => .error ⟨.invalidNumber, beyond.length⟩
  else
    let (gathered, left) := gather significand digits
    afterFraction negative gathered (start - (digits.length - left : Nat)) rest

/-- Reads what may follow the digits before the point; `left` of them found no room. -/
def afterInteger (negative : Bool) (significand left : Nat) :
    Bytes → Except Stop (Number × Bytes)
  | Byte.point :: rest => fractionPart negative significand left rest
  | Byte.capitalE :: rest => exponentPart negative significand left rest
  | Byte.smallE :: rest => exponentPart negative significand left rest
  | rest =>
      if left = 0 then .ok (wholeOf negative significand, rest)
      else realOf negative significand left rest

/-- Reads a numeral, after its sign. -/
def read (negative : Bool) : Bytes → Except Stop (Number × Bytes)
  | [] => .error ⟨.eofInValue, 0⟩
  | b :: rest =>
      if !isDigit b then .error ⟨.invalidNumber, rest.length⟩
      else if b = Byte.zero then
        match rest with
        | [] => afterInteger negative 0 0 []
        | c :: beyond =>
            if isDigit c then .error ⟨.invalidNumber, beyond.length⟩
            else afterInteger negative 0 0 (c :: beyond)
      else
        let (significand, left) := gather (digitValue b) (rest.takeWhile isDigit)
        afterInteger negative significand left (rest.dropWhile isDigit)

end Numeral
end Json
end DocScript
