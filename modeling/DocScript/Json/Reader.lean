import DocScript.Json.Numeral
import DocScript.Json.StringLiteral

/-!
# Reading JSON text

The reader works on the bytes of a text. Lists and objects may be nested up to a
fixed depth, and the reader recurses on what is left of that depth. The members
of one list or object are read by a loop that is given one round for every byte
that is left, which is more than enough as each member takes at least one.

`read` takes a text as one document. `next` takes the next document of a text
that holds several, one after the other.
-/

namespace DocScript
namespace Json

/-- White space between the parts of a document. -/
def isSpace (b : UInt8) : Bool :=
  b = Byte.space || b = Byte.lineFeed || b = Byte.tab || b = Byte.carriageReturn

/-- The text without the white space it starts with. -/
def skipSpace (text : Bytes) : Bytes :=
  text.dropWhile isSpace

/-- Reads the remaining letters of a word such as `true`. -/
def ident : Bytes → Bytes → Except Stop Bytes
  | [], text => .ok text
  | _ :: _, [] => .error ⟨.eofInValue, 0⟩
  | letter :: letters, b :: rest =>
      if b = letter then ident letters rest
      else .error ⟨.expectedIdent, rest.length⟩

section Containers

variable {α : Type}

/--
Reads the items of a list after its opening bracket, each by `item`. `first`
tells whether none has been read yet.
-/
def listItems (item : Bytes → Except Stop (α × Bytes)) :
    Nat → Bool → Bytes → Except Stop (List α × Bytes)
  | 0, _, _ => .error ⟨.eofInList, 0⟩
  | rounds + 1, first, text =>
      let more (text : Bytes) : Except Stop (List α × Bytes) :=
        match item text with
        | .error stop => .error stop
        | .ok (head, rest) =>
            match listItems item rounds false rest with
            | .error stop => .error stop
            | .ok (tail, rest) => .ok (head :: tail, rest)
      match skipSpace text with
      | [] => .error ⟨.eofInList, 0⟩
      | b :: rest =>
          if b = Byte.closeList then .ok ([], rest)
          else if first then more (b :: rest)
          else if b = Byte.comma then
            match skipSpace rest with
            | [] => .error ⟨.eofInValue, 0⟩
            | c :: beyond =>
                if c = Byte.closeList then .error ⟨.trailingComma, beyond.length⟩
                else more (c :: beyond)
          else .error ⟨.expectedCommaOrListEnd, rest.length⟩

/-- Reads the colon between a name and its value. -/
def colon (text : Bytes) : Except Stop Bytes :=
  match skipSpace text with
  | [] => .error ⟨.eofInObject, 0⟩
  | b :: rest =>
      if b = Byte.colon then .ok rest else .error ⟨.expectedColon, rest.length⟩

/-- Reads a member of an object after the opening quote of its name, the value by `item`. -/
def member (item : Bytes → Except Stop (α × Bytes)) (text : Bytes) :
    Except Stop ((String × α) × Bytes) :=
  match StringLiteral.read text with
  | .error stop => .error stop
  | .ok (name, rest) =>
      match colon rest with
      | .error stop => .error stop
      | .ok rest =>
          match item rest with
          | .error stop => .error stop
          | .ok (value, rest) => .ok ((name, value), rest)

/--
Reads the members of an object after its opening brace, each by `entry` from the
opening quote of its name on. `first` tells whether none has been read yet.
-/
def objectMembers (entry : Bytes → Except Stop (α × Bytes)) :
    Nat → Bool → Bytes → Except Stop (List α × Bytes)
  | 0, _, _ => .error ⟨.eofInObject, 0⟩
  | rounds + 1, first, text =>
      let more (text : Bytes) : Except Stop (List α × Bytes) :=
        match entry text with
        | .error stop => .error stop
        | .ok (head, rest) =>
            match objectMembers entry rounds false rest with
            | .error stop => .error stop
            | .ok (tail, rest) => .ok (head :: tail, rest)
      match skipSpace text with
      | [] => .error ⟨.eofInObject, 0⟩
      | b :: rest =>
          if b = Byte.closeObject then .ok ([], rest)
          else if first then
            if b = Byte.quote then more rest else .error ⟨.keyNotString, rest.length⟩
          else if b = Byte.comma then
            match skipSpace rest with
            | [] => .error ⟨.eofInValue, 0⟩
            | c :: beyond =>
                if c = Byte.quote then more beyond
                else if c = Byte.closeObject then .error ⟨.trailingComma, beyond.length⟩
                else .error ⟨.keyNotString, beyond.length⟩
          else .error ⟨.expectedCommaOrObjectEnd, rest.length⟩

end Containers

/-- How deep lists and objects may be nested in one another. -/
def maxDepth : Nat := 127

/-- Reads one document; `depth` more lists and objects may be opened inside one another. -/
def value (depth : Nat) (text : Bytes) : Except Stop (Json × Bytes) :=
  match skipSpace text with
  | [] => .error ⟨.eofInValue, 0⟩
  | b :: rest =>
      if b = 'n'.toUInt8 then (ident (Byte.word ['u', 'l', 'l']) rest).map (.null, ·)
      else if b = 't'.toUInt8 then (ident (Byte.word ['r', 'u', 'e']) rest).map (.bool true, ·)
      else if b = 'f'.toUInt8 then
        (ident (Byte.word ['a', 'l', 's', 'e']) rest).map (.bool false, ·)
      else if b = Byte.minus then
        (Numeral.read true rest).map fun (n, rest) => (.number n, rest)
      else if Numeral.isDigit b then
        (Numeral.read false (b :: rest)).map fun (n, rest) => (.number n, rest)
      else if b = Byte.quote then
        (StringLiteral.read rest).map fun (s, rest) => (.string s, rest)
      else if b = Byte.openList then
        match depth with
        | 0 => .error ⟨.recursionLimit, rest.length⟩
        | depth + 1 =>
            (listItems (value depth) text.length true rest).map
              fun (items, rest) => (.array items, rest)
      else if b = Byte.openObject then
        match depth with
        | 0 => .error ⟨.recursionLimit, rest.length⟩
        | depth + 1 =>
            (objectMembers (member (value depth)) text.length true rest).map
              fun (members, rest) => (.object (orderMembers members), rest)
      else .error ⟨.expectedValue, rest.length⟩

/-- Refuses anything but white space after a document. -/
def endOfText (text : Bytes) : Except Stop Unit :=
  match skipSpace text with
  | [] => .ok ()
  | _ :: rest => .error ⟨.trailingCharacters, rest.length⟩

/-- The bytes of a text. -/
def bytesOf (text : String) : Bytes :=
  text.toUTF8.data.toList

/-- Reads bytes as one document. -/
def readBytes (text : Bytes) : Except Stop Json :=
  match value maxDepth text with
  | .error stop => .error stop
  | .ok (document, rest) => (endOfText rest).map fun _ => document

/-- Reads a text as one document. -/
def read (text : String) : Except Fault Json :=
  (readBytes (bytesOf text)).mapError (·.toFault (bytesOf text))

/-- The bytes that may follow a document in a sequence of documents. -/
def endsDocument (b : UInt8) : Bool :=
  isSpace b || b = Byte.quote || b = Byte.openList || b = Byte.closeList
    || b = Byte.openObject || b = Byte.closeObject || b = Byte.comma || b = Byte.colon

/--
Reads the next document of a sequence, if there is one. A word or numeral must be
told apart from what follows it.
-/
def next (text : Bytes) : Except Stop (Option (Json × Bytes)) :=
  match skipSpace text with
  | [] => .ok none
  | b :: rest =>
      match value maxDepth (b :: rest) with
      | .error stop => .error stop
      | .ok (document, rest) =>
          if b = Byte.openList ∨ b = Byte.quote ∨ b = Byte.openObject then
            .ok (some (document, rest))
          else
            match rest with
            | [] => .ok (some (document, []))
            | c :: beyond =>
                if endsDocument c then .ok (some (document, c :: beyond))
                else .error ⟨.trailingCharacters, beyond.length⟩

end Json
end DocScript
