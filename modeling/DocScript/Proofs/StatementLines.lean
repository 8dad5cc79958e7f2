import DocScript.Proofs.ShellLines

/-!
# Statements are not commands

A line of the shell is a statement when its first word names no command. The shell looks at
characters, and the reader of documents at bytes; the two must not disagree about where a
line begins. White space between the parts of a document is blank in the eyes of the shell,
but there are more blanks than that, and no document starts with one of these. And no
document starts with the name of a command: the only command with the first letter of a word
that is a document is `func`, and the word is `false`.

**Results.**
* `Json.bytesOf_eq`: the bytes of a text, character by character.
* `Json.startsValue_of_value`: how a document starts.
* `Shell.commandOf_eq_none_of_read`: a line that can be read is not a command.
* `Shell.perform_of_read`: such a line is performed as a statement.
-/

namespace DocScript

namespace Json

/-- The bytes of characters. -/
def encode (chars : List Char) : Bytes :=
  chars.flatMap String.utf8EncodeChar

theorem encode_append (chars rest : List Char) :
    encode (chars ++ rest) = encode chars ++ encode rest :=
  List.flatMap_append

theorem bytesOf_eq (text : String) : bytesOf text = encode text.toList := by
  unfold bytesOf String.toUTF8 encode
  rw [← String.utf8Encode_toList]
  simp [List.utf8Encode]

/-- A character is one byte, or starts with a byte that is no character of its own. -/
theorem utf8EncodeChar_cases (c : Char) :
    (c.toNat ≤ 127 ∧ String.utf8EncodeChar c = [UInt8.ofNat c.toNat]) ∨
    127 < c.toNat ∧ ∃ b tail, String.utf8EncodeChar c = b :: tail ∧ 192 ≤ b.toNat := by
  have hcode : c.toNat = c.val.toNat := rfl
  simp only [String.utf8EncodeChar, ← hcode]
  split
  · rename_i hone
    exact .inl ⟨hone, rfl⟩
  · rename_i hmany
    refine .inr ⟨by omega, ?_⟩
    split
    · refine ⟨_, _, rfl, ?_⟩
      rw [UInt8.toNat_ofNat']
      omega
    · split
      · refine ⟨_, _, rfl, ?_⟩
        rw [UInt8.toNat_ofNat']
        omega
      · refine ⟨_, _, rfl, ?_⟩
        rw [UInt8.toNat_ofNat']
        omega

/-- Whether a document may start with some bytes. -/
def startsValue : Bytes → Bool
  | [] => false
  | b :: rest =>
      b = 'n'.toUInt8 || b = 't'.toUInt8 || (b = 'f'.toUInt8 && rest.head? = some 'a'.toUInt8)
        || b = Byte.minus || Numeral.isDigit b || b = Byte.quote || b = Byte.openList
        || b = Byte.openObject

theorem head?_of_ident {letter : UInt8} {letters text rest : Bytes}
    (h : ident (letter :: letters) text = .ok rest) : text.head? = some letter := by
  cases text with
  | nil =>
      cases h
  | cons b tail =>
      rw [ident] at h
      split at h
      · rename_i hb
        rw [hb]
        rfl
      · cases h

theorem startsValue_of_value {depth : Nat} {text : Bytes} {result : Json × Bytes}
    (h : value depth text = .ok result) : startsValue (skipSpace text) = true := by
  rw [value.eq_def] at h
  split at h
  · cases h
  · rename_i b rest hskip
    rw [hskip]
    by_cases hword : b = 'f'.toUInt8
    · subst hword
      cases hident : ident (Byte.word ['a', 'l', 's', 'e']) rest with
      | error stop =>
          rw [hident] at h
          cases h
      | ok tail =>
          simp [startsValue, head?_of_ident hident]
    · simp only [startsValue, hword, decide_false, Bool.false_and, Bool.or_false, Bool.or_eq_true,
        decide_eq_true_eq]
      refine Decidable.byContradiction fun hnone => ?_
      simp only [not_or] at hnone
      simp only [hnone, hword, if_false] at h
      cases h

theorem startsValue_of_read {text : String} {document : Json} (h : read text = .ok document) :
    startsValue (skipSpace (bytesOf text)) = true := by
  unfold read readBytes at h
  cases hvalue : value maxDepth (bytesOf text) with
  | error stop =>
      rw [hvalue] at h
      cases h
  | ok result =>
      exact startsValue_of_value hvalue

/-- No document starts with a byte that is blank, or part of a longer character. -/
theorem lead_of_startsValue {b : UInt8} {rest : Bytes} (h : startsValue (b :: rest) = true) :
    32 < b.toNat ∧ b.toNat < 128 := by
  simp only [startsValue, Numeral.isDigit, Bool.or_eq_true, Bool.and_eq_true,
    decide_eq_true_eq] at h
  rcases h with ((((((rfl | rfl) | ⟨rfl, _⟩) | rfl) | ⟨hzero, hnine⟩) | rfl) | rfl) | rfl
  all_goals first | decide | skip
  rw [UInt8.le_iff_toNat_le] at hzero hnine
  change 48 ≤ b.toNat at hzero
  change b.toNat ≤ 57 at hnine
  omega

theorem isSpace_iff {b : UInt8} :
    isSpace b = true ↔ b.toNat = 32 ∨ b.toNat = 10 ∨ b.toNat = 9 ∨ b.toNat = 13 := by
  simp only [isSpace, Bool.or_eq_true, decide_eq_true_eq, ← UInt8.toNat_inj, or_assoc]
  rfl

theorem toNat_ofNat_of_le {n : Nat} (h : n ≤ 127) : (UInt8.ofNat n).toNat = n := by
  rw [UInt8.toNat_ofNat']
  omega

/-- Where the white space of a document ends, the blanks that the shell drops end. -/
theorem startsValue_trimStart {chars : List Char}
    (h : startsValue (skipSpace (encode chars)) = true) :
    ∃ c rest, Text.trimStart chars = c :: rest ∧ Text.isBlank c = false ∧
      startsValue (encode (c :: rest)) = true := by
  induction chars with
  | nil =>
      cases h
  | cons c rest ih =>
      have hencode : encode (c :: rest) = String.utf8EncodeChar c ++ encode rest :=
        List.flatMap_cons
      obtain ⟨b, tail, hbytes, hlead⟩ : ∃ b tail, encode (c :: rest) = b :: tail ∧
          (c.toNat ≤ 127 ∧ b.toNat = c.toNat ∧ tail = encode rest ∨ 128 ≤ b.toNat) := by
        rcases utf8EncodeChar_cases c with ⟨hone, heq⟩ | ⟨_, b, tail, heq, hb⟩
        · exact ⟨_, _, by rw [hencode, heq]; rfl, .inl ⟨hone, toNat_ofNat_of_le hone, rfl⟩⟩
        · exact ⟨b, tail ++ encode rest, by rw [hencode, heq]; rfl, .inr (by omega)⟩
      by_cases hspace : isSpace b = true
      · -- A space of a document is one byte, and a blank.
        have hcode := isSpace_iff.mp hspace
        obtain ⟨_, hcode', rfl⟩ : c.toNat ≤ 127 ∧ b.toNat = c.toNat ∧ tail = encode rest := by
          rcases hlead with hlead | hlead
          · exact hlead
          · omega
        have hblank : Text.isBlank c = true := by
          simp only [Text.isBlank, Bool.or_eq_true, Bool.and_eq_true, decide_eq_true_eq]
          omega
        have htrim : Text.trimStart (c :: rest) = Text.trimStart rest := by
          simp [Text.trimStart, hblank]
        rw [htrim]
        rw [hbytes, skipSpace, List.dropWhile_cons_of_pos hspace] at h
        exact ih h
      · -- The document starts here, so there is no blank.
        rw [hbytes, skipSpace, List.dropWhile_cons_of_neg hspace] at h
        obtain ⟨hlow, hhigh⟩ := lead_of_startsValue h
        have hblank : Text.isBlank c = false := by
          simp only [Text.isBlank, Bool.or_eq_false_iff, Bool.and_eq_false_iff,
            decide_eq_false_iff_not]
          omega
        have htrim : Text.trimStart (c :: rest) = c :: rest := by
          simp [Text.trimStart, hblank]
        exact ⟨c, rest, htrim, hblank, hbytes ▸ h⟩

end Json

namespace Shell

theorem Command.not_startsValue_name (command : Command) (rest : Json.Bytes) :
    Json.startsValue (Json.encode command.name.toList ++ rest) = false := by
  cases command <;> rfl

/-- The first word of a text that can be read is there, and does not name a command. -/
theorem commandOf_eq_none_of_read {line : String} {document : Json}
    (hread : Json.read line = .ok document) :
    (Text.splitWord line.toList).1 ≠ [] ∧ commandOf line = none := by
  have hstart := Json.startsValue_of_read hread
  rw [Json.bytesOf_eq] at hstart
  obtain ⟨c, rest, htrim, hblank, hvalue⟩ := Json.startsValue_trimStart hstart
  have hword : (Text.splitWord line.toList).1 = c :: Text.headWord rest := by
    simp [Text.splitWord, htrim, Text.headWord, hblank]
  refine ⟨by simp [hword], ?_⟩
  cases hcommand : commandOf line with
  | none =>
      rfl
  | some command =>
      have hname : c :: rest = command.name.toList ++ Text.afterWord rest := by
        rw [commandOf, Command.ofName?_eq_some_iff, hword] at hcommand
        rw [hcommand, String.toList_ofList, List.cons_append, Text.headWord_append_afterWord]
      rw [hname, Json.encode_append, command.not_startsValue_name] at hvalue
      cases hvalue

/-- A line that can be read is performed as a statement. -/
theorem perform_of_read {H : Type} {line : String} {document : Json}
    (hread : Json.read line = .ok document) (fuel : Nat) (shell : Shell H) :
    shell.perform fuel line = showAnswer (shell.session.runStatement fuel line) shell := by
  obtain ⟨hfirst, hcommand⟩ := commandOf_eq_none_of_read hread
  rw [commandOf] at hcommand
  unfold perform
  simp only [hcommand, List.isEmpty_iff, if_neg hfirst]

end Shell

end DocScript
