import DocScript.Json.Reader

/-!
# Documents passed over

A document that nobody looks at is only passed over: it must have the form of
JSON, but there is no limit on its depth, a numeral may be too large, and an
escape may stand for a surrogate. The bytes passed over are kept, so that they
can be looked at later.
-/

namespace DocScript
namespace Json
namespace Raw

/-- Passes over a string literal after its opening quote; `hex` more digits are due. -/
def skipString (escaped : Bool) (hex : Nat) : Bytes → Except Stop Bytes
  | [] => .error ⟨.eofInString, 0⟩
  | b :: rest =>
      if 0 < hex then
        if (StringLiteral.hexValue? b).isSome then skipString false (hex - 1) rest
        else .error ⟨.invalidEscape, rest.length⟩
      else if escaped then
        if b = Byte.smallU then skipString false 4 rest
        else if (StringLiteral.escapedByte? b).isSome then skipString false 0 rest
        else .error ⟨.invalidEscape, rest.length⟩
      else if b = Byte.quote then .ok rest
      else if b = Byte.backslash then skipString true 0 rest
      else if b < Byte.space then .error ⟨.controlCharacter, rest.length⟩
      else skipString false 0 rest

/-- Passes over one digit or more. -/
def skipDigits (text : Bytes) : Except Stop Bytes :=
  let rest := text.dropWhile Numeral.isDigit
  if rest.length < text.length then .ok rest else .error ⟨.invalidNumber, text.length⟩

/-- Passes over an exponent, if there is one. -/
def skipExponent (text : Bytes) : Except Stop Bytes :=
  match text with
  | Byte.capitalE :: rest => skipDigits (Numeral.exponentSign rest).2
  | Byte.smallE :: rest => skipDigits (Numeral.exponentSign rest).2
  | rest => .ok rest

/-- Passes over a fraction and an exponent, if there are such. -/
def skipFraction (text : Bytes) : Except Stop Bytes :=
  match text with
  | Byte.point :: rest =>
      match skipDigits rest with
      | .error stop => .error stop
      | .ok rest => skipExponent rest
  | rest => skipExponent rest

/-- Passes over a numeral after its sign. -/
def skipNumeral (text : Bytes) : Except Stop Bytes :=
  match text with
  | Byte.zero :: c :: rest =>
      if Numeral.isDigit c then .error ⟨.invalidNumber, rest.length⟩ else skipFraction (c :: rest)
  | rest =>
      match skipDigits rest with
      | .error stop => .error stop
      | .ok rest => skipFraction rest

/-- Passes over a member of an object after the opening quote of its name. -/
def skipMember (item : Bytes → Except Stop (Unit × Bytes)) (text : Bytes) :
    Except Stop (Unit × Bytes) :=
  match skipString false 0 text with
  | .error stop => .error stop
  | .ok rest =>
      match colon rest with
      | .error stop => .error stop
      | .ok rest => item rest

/-- Passes over a document of at most a given depth. -/
def skipValue (depth : Nat) (text : Bytes) : Except Stop (Unit × Bytes) :=
  match skipSpace text with
  | [] => .error ⟨.eofInValue, 0⟩
  | b :: rest =>
      if b = 'n'.toUInt8 then (ident (Byte.word ['u', 'l', 'l']) rest).map ((), ·)
      else if b = 't'.toUInt8 then (ident (Byte.word ['r', 'u', 'e']) rest).map ((), ·)
      else if b = 'f'.toUInt8 then
        (ident (Byte.word ['a', 'l', 's', 'e']) rest).map ((), ·)
      else if b = Byte.minus then (skipNumeral rest).map ((), ·)
      else if Numeral.isDigit b then (skipNumeral (b :: rest)).map ((), ·)
      else if b = Byte.quote then (skipString false 0 rest).map ((), ·)
      else if b = Byte.openList then
        match depth with
        | 0 => .error ⟨.recursionLimit, rest.length⟩
        | depth + 1 =>
            (listItems (skipValue depth) text.length true rest).map fun (_, rest) => ((), rest)
      else if b = Byte.openObject then
        match depth with
        | 0 => .error ⟨.recursionLimit, rest.length⟩
        | depth + 1 =>
            (objectMembers (skipMember (skipValue depth)) text.length true rest).map
              fun (_, rest) => ((), rest)
      else .error ⟨.expectedValue, rest.length⟩

/-- The bytes of the next document, and what follows it. -/
def document (text : Bytes) : Except Stop (Bytes × Bytes) :=
  match skipValue text.length text with
  | .error stop => .error stop
  | .ok (_, rest) => .ok (text.take (text.length - rest.length), rest)

/-- A list or an object whose parts have been passed over. -/
inductive Container where
  | list (items : List Bytes)
  | object (members : List (String × Bytes))

/-- Reads bytes as one list or object. -/
def container? (text : Bytes) : Option Container :=
  match skipSpace text with
  | Byte.openList :: rest =>
      match listItems document text.length true rest with
      | .ok (items, rest) => if skipSpace rest = [] then some (.list items) else none
      | .error _ => none
  | Byte.openObject :: rest =>
      match objectMembers (member document) text.length true rest with
      | .ok (members, rest) => if skipSpace rest = [] then some (.object members) else none
      | .error _ => none
  | _ => none

end Raw
end Json
end DocScript
