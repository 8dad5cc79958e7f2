import DocScript.Json.Byte

/-!
# Faults of JSON text

Reading a text stops at the first byte that cannot be continued. A fault names
the reason and the place, as a line counted from one and the number of bytes
read on that line.
-/

namespace DocScript
namespace Json

/-- Why a text is no JSON document. -/
inductive Reason where
  | eofInValue
  | eofInList
  | eofInObject
  | eofInString
  | expectedValue
  | expectedIdent
  | expectedColon
  | expectedCommaOrListEnd
  | expectedCommaOrObjectEnd
  | keyNotString
  | trailingComma
  | trailingCharacters
  | recursionLimit
  | invalidNumber
  | numberOutOfRange
  | invalidEscape
  | loneSurrogate
  | unfinishedHexEscape
  | controlCharacter
  | invalidUnicode
deriving DecidableEq

/-- The wording of a reason. -/
def Reason.text : Reason → String
  | .eofInValue => "EOF while parsing a value"
  | .eofInList => "EOF while parsing a list"
  | .eofInObject => "EOF while parsing an object"
  | .eofInString => "EOF while parsing a string"
  | .expectedValue => "expected value"
  | .expectedIdent => "expected ident"
  | .expectedColon => "expected `:`"
  | .expectedCommaOrListEnd => "expected `,` or `]`"
  | .expectedCommaOrObjectEnd => "expected `,` or `\x7d`"
  | .keyNotString => "key must be a string"
  | .trailingComma => "trailing comma"
  | .trailingCharacters => "trailing characters"
  | .recursionLimit => "recursion limit exceeded"
  | .invalidNumber => "invalid number"
  | .numberOutOfRange => "number out of range"
  | .invalidEscape => "invalid escape"
  | .loneSurrogate => "lone leading surrogate in hex escape"
  | .unfinishedHexEscape => "unexpected end of hex escape"
  | .controlCharacter => "control character (\\u0000-\\u001F) found while parsing a string"
  | .invalidUnicode => "invalid unicode code point"

/-- A reading that stopped: the reason, and how many bytes lie beyond the place. -/
structure Stop where
  reason : Reason
  remaining : Nat

/-- A reason with its place in the text. -/
structure Fault where
  reason : Reason
  line : Nat
  column : Nat
deriving DecidableEq

/-- The text of a fault: its reason, then its place. -/
def Fault.message (fault : Fault) : String :=
  s!"{fault.reason.text} at line {fault.line} column {fault.column}"

/-- The line and column reached after some bytes, starting from a given line and column. -/
def advance (line column : Nat) : Bytes → Nat × Nat
  | [] => (line, column)
  | b :: rest =>
      if b = Byte.lineFeed then advance (line + 1) 0 rest
      else advance line (column + 1) rest

/-- The place where a reading of the whole text stopped. -/
def Stop.toFault (stop : Stop) (text : Bytes) : Fault :=
  let (line, column) := advance 1 0 (text.take (text.length - stop.remaining))
  ⟨stop.reason, line, column⟩

end Json
end DocScript
