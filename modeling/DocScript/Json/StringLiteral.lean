import DocScript.Json.Fault

/-!
# String literals

A string literal is read byte by byte after its opening quote. Between plain
bytes an escape may stand: a backslash and one letter, or a backslash, the
letter `u` and four hexadecimal digits. Two such escapes in a row stand for one
character beyond the basic plane when the first is a leading and the second a
trailing surrogate; a surrogate alone is refused. The four digits are judged
together, once all four bytes are there.
-/

namespace DocScript
namespace Json
namespace StringLiteral

/-- Where the reading of a literal stands. -/
inductive Mode where
  /-- Between characters. -/
  | plain
  /-- After a backslash. -/
  | escape
  /-- Inside four hexadecimal digits: the leading surrogate before them, if any, and the
  digits so far, last one first. -/
  | hex (lead : Option Nat) (digits : Bytes)
  /-- After a leading surrogate. -/
  | pair (lead : Nat)
  /-- After a leading surrogate and a backslash. -/
  | pairEscape (lead : Nat)

/-- The value of a hexadecimal digit. -/
def hexValue? (b : UInt8) : Option Nat :=
  if Byte.zero ≤ b && b ≤ Byte.nine then some (b.toNat - Byte.zero.toNat)
  else if 'a'.toUInt8 ≤ b && b ≤ 'f'.toUInt8 then some (b.toNat - 'a'.toNat + 10)
  else if 'A'.toUInt8 ≤ b && b ≤ 'F'.toUInt8 then some (b.toNat - 'A'.toNat + 10)
  else none

/-- The number that hexadecimal digits stand for, most significant digit first. -/
def hexNumber? (digits : Bytes) : Option Nat :=
  digits.foldlM (fun n b => (hexValue? b).map (16 * n + ·)) 0

/-- The bytes of the character with a given code point. -/
def encode (code : Nat) : Bytes :=
  (String.singleton (Char.ofNat code)).toUTF8.data.toList

/-- The byte that an escape letter stands for. -/
def escapedByte? (b : UInt8) : Option UInt8 :=
  if b = Byte.quote ∨ b = Byte.backslash ∨ b = Byte.slash then some b
  else if b = 'b'.toUInt8 then some 0x08
  else if b = 'f'.toUInt8 then some 0x0C
  else if b = 'n'.toUInt8 then some Byte.lineFeed
  else if b = 'r'.toUInt8 then some Byte.carriageReturn
  else if b = 't'.toUInt8 then some Byte.tab
  else none

/-- What a completed group of four hexadecimal digits leads to. -/
inductive CodeUnit where
  /-- A character. -/
  | char (code : Nat)
  /-- A leading surrogate, which asks for its partner. -/
  | lead (code : Nat)
  /-- A reason to stop. -/
  | refused (reason : Reason)

/-- Judges four hexadecimal digits after an optional leading surrogate. -/
def unitOf (lead : Option Nat) (digits : Bytes) : CodeUnit :=
  match hexNumber? digits, lead with
  | none, _ => .refused .invalidEscape
  | some n, none =>
      if 0xDC00 ≤ n ∧ n ≤ 0xDFFF then .refused .loneSurrogate
      else if 0xD800 ≤ n ∧ n ≤ 0xDBFF then .lead n
      else .char n
  | some n, some high =>
      if 0xDC00 ≤ n ∧ n ≤ 0xDFFF then
        .char (0x10000 + (high - 0xD800) * 0x400 + (n - 0xDC00))
      else .refused .loneSurrogate

/--
Reads a literal from a given mode on; `done` holds the bytes read so far, last
one first. The result is the content and what follows the closing quote.
-/
def scan (mode : Mode) (done : Bytes) : Bytes → Except Stop (Bytes × Bytes)
  | [] => .error ⟨.eofInString, 0⟩
  | b :: rest =>
      match mode with
      | .plain =>
          if b = Byte.quote then .ok (done.reverse, rest)
          else if b = Byte.backslash then scan .escape done rest
          else if b < Byte.space then .error ⟨.controlCharacter, rest.length⟩
          else scan .plain (b :: done) rest
      | .escape =>
          if b = Byte.smallU then scan (.hex none []) done rest
          else
            match escapedByte? b with
            | some byte => scan .plain (byte :: done) rest
            | none => .error ⟨.invalidEscape, rest.length⟩
      | .hex lead digits =>
          if digits.length < 3 then scan (.hex lead (b :: digits)) done rest
          else
            match unitOf lead (b :: digits).reverse with
            | .char code => scan .plain ((encode code).reverse ++ done) rest
            | .lead code => scan (.pair code) done rest
            | .refused reason => .error ⟨reason, rest.length⟩
      | .pair lead =>
          if b = Byte.backslash then scan (.pairEscape lead) done rest
          else .error ⟨.unfinishedHexEscape, rest.length⟩
      | .pairEscape lead =>
          if b = Byte.smallU then scan (.hex (some lead) []) done rest
          else .error ⟨.unfinishedHexEscape, rest.length⟩

/-- The text whose bytes are given, where they are the bytes of a text. -/
def decode? (content : Bytes) : Option String :=
  String.fromUTF8? ⟨content.toArray⟩

/-- Reads a string literal after its opening quote. -/
def read (text : Bytes) : Except Stop (String × Bytes) :=
  match scan .plain [] text with
  | .error stop => .error stop
  | .ok (content, rest) =>
      match decode? content with
      | some s => .ok (s, rest)
      | none => .error ⟨.invalidUnicode, rest.length⟩

end StringLiteral
end Json
end DocScript
