/-!
# Bytes of JSON text

Names for the bytes that the reader looks for. All of them are ASCII, so none of
them occurs inside the encoding of another character.
-/

namespace DocScript
namespace Json

/-- Bytes of a text, or of what is left of it. -/
abbrev Bytes := List UInt8

namespace Byte

/-- The tab. -/
@[match_pattern] abbrev tab : UInt8 := 0x09

/-- The line feed. -/
@[match_pattern] abbrev lineFeed : UInt8 := 0x0A

/-- The carriage return. -/
@[match_pattern] abbrev carriageReturn : UInt8 := 0x0D

/-- The space, which is also the first byte that is no control character. -/
@[match_pattern] abbrev space : UInt8 := 0x20

/-- The double quote. -/
@[match_pattern] abbrev quote : UInt8 := 0x22

/-- The plus sign. -/
@[match_pattern] abbrev plus : UInt8 := 0x2B

/-- The comma. -/
@[match_pattern] abbrev comma : UInt8 := 0x2C

/-- The minus sign. -/
@[match_pattern] abbrev minus : UInt8 := 0x2D

/-- The decimal point. -/
@[match_pattern] abbrev point : UInt8 := 0x2E

/-- The slash. -/
@[match_pattern] abbrev slash : UInt8 := 0x2F

/-- The digit zero. -/
@[match_pattern] abbrev zero : UInt8 := 0x30

/-- The digit nine. -/
@[match_pattern] abbrev nine : UInt8 := 0x39

/-- The colon. -/
@[match_pattern] abbrev colon : UInt8 := 0x3A

/-- The letter that announces an exponent, as a capital. -/
@[match_pattern] abbrev capitalE : UInt8 := 0x45

/-- The opening bracket of a list. -/
@[match_pattern] abbrev openList : UInt8 := 0x5B

/-- The backslash. -/
@[match_pattern] abbrev backslash : UInt8 := 0x5C

/-- The closing bracket of a list. -/
@[match_pattern] abbrev closeList : UInt8 := 0x5D

/-- The letter that announces an exponent. -/
@[match_pattern] abbrev smallE : UInt8 := 0x65

/-- The letter that announces four hexadecimal digits. -/
@[match_pattern] abbrev smallU : UInt8 := 0x75

/-- The opening brace of an object. -/
@[match_pattern] abbrev openObject : UInt8 := 0x7B

/-- The closing brace of an object. -/
@[match_pattern] abbrev closeObject : UInt8 := 0x7D

/-- The bytes of a word in ASCII letters. -/
def word (letters : List Char) : Bytes :=
  letters.map Char.toUInt8

end Byte
end Json
end DocScript
