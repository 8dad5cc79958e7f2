import DocScript.Proofs.DocumentFronts

/-!
# Cutting a line

The shell cuts words off a line, and trims what remains each time. Blanks at the ends of a
line make no difference to this, and so a remainder is cut as if it had not been trimmed.
When at last a document remains, it has been trimmed as characters but is read as bytes.
White space of a document is blank, and a document neither starts nor ends with a blank, so
trimming takes off the white space around a document and nothing of the document itself.

**Results.**
* `Text.splitWord_append`, `Text.splitWord_trim`: words are cut off whatever blanks there are.
* `Json.encode_trim`: what trimming leaves of the bytes of a text.
* `Json.read_trim`: a text is read as before when it has been trimmed.
-/

namespace DocScript

namespace Text

/-- Blanks and nothing else. -/
def Blank (chars : List Char) : Prop :=
  ∀ c ∈ chars, isBlank c = true

/-- At least one character, and no blank. -/
def IsWord (chars : List Char) : Prop :=
  chars ≠ [] ∧ ∀ c ∈ chars, isBlank c = false

/-- At least one blank, and nothing else. -/
def IsGap (chars : List Char) : Prop :=
  chars ≠ [] ∧ Blank chars

instance (chars : List Char) : Decidable (Blank chars) :=
  decidable_of_iff (chars.all isBlank = true) List.all_eq_true

instance (chars : List Char) : Decidable (IsWord chars) :=
  decidable_of_iff ((!chars.isEmpty && chars.all fun c => !isBlank c) = true) (by simp [IsWord])

instance (chars : List Char) : Decidable (IsGap chars) :=
  decidable_of_iff ((!chars.isEmpty && chars.all isBlank) = true) (by simp [IsGap, Blank])

variable {lead word rest trail chars : List Char}

theorem trimStart_append (hlead : Blank lead) (chars : List Char) :
    trimStart (lead ++ chars) = trimStart chars :=
  List.dropWhile_append_of_pos hlead

theorem trimStart_of_blank (h : Blank chars) : trimStart chars = [] :=
  List.dropWhile_eq_nil_iff.mpr h

theorem trimStart_trimStart (line : List Char) : trimStart (trimStart line) = trimStart line := by
  obtain ⟨lead, hlead, hblank⟩ := exists_dropWhile isBlank line
  exact (trimStart_append hblank _).symm.trans (congrArg trimStart hlead.symm)

theorem trimEnd_append (htrail : Blank trail) (chars : List Char) :
    trimEnd (chars ++ trail) = trimEnd chars := by
  have hreverse : Blank trail.reverse := fun c hc => htrail c (List.mem_reverse.mp hc)
  rw [trimEnd, List.reverse_append]
  exact congrArg List.reverse (trimStart_append hreverse chars.reverse)

/-- Blanks at the end stay until a line is trimmed there, unless there is nothing else. -/
theorem trimStart_append_cases (htrail : Blank trail) (chars : List Char) :
    (trimStart chars = [] ∧ trimStart (chars ++ trail) = []) ∨
      trimStart (chars ++ trail) = trimStart chars ++ trail := by
  have happend : trimStart (chars ++ trail) =
      if (trimStart chars).isEmpty then trimStart trail else trimStart chars ++ trail :=
    List.dropWhile_append
  rw [happend, trimStart_of_blank htrail]
  split
  · rename_i hempty
    exact .inl ⟨List.isEmpty_iff.mp hempty, rfl⟩
  · exact .inr rfl

theorem trim_append_blank (htrail : Blank trail) (chars : List Char) :
    trim (chars ++ trail) = trim chars := by
  unfold trim
  rcases trimStart_append_cases htrail chars with ⟨hempty, happend⟩ | happend
  · rw [happend, hempty]
  · rw [happend, trimEnd_append htrail]

/-- Blanks around a text are trimmed away. -/
theorem trim_append (hlead : Blank lead) (htrail : Blank trail) (chars : List Char) :
    trim (lead ++ (chars ++ trail)) = trim chars := by
  rw [← trim_append_blank htrail chars, trim, trimStart_append hlead, trim]

theorem exists_trimEnd (chars : List Char) :
    ∃ trail, chars = trimEnd chars ++ trail ∧ Blank trail := by
  obtain ⟨front, hchars, hfront⟩ := exists_dropWhile isBlank chars.reverse
  refine ⟨front.reverse, ?_, fun c hc => hfront c (List.mem_reverse.mp hc)⟩
  rw [trimEnd, ← List.reverse_append, ← hchars, List.reverse_reverse]

theorem headWord_append (hword : ∀ c ∈ word, isBlank c = false)
    (hrest : Halts (fun c => !isBlank c) rest) : headWord (word ++ rest) = word :=
  takeWhile_append_of_halts (fun c hc => by simp [hword c hc]) hrest

theorem afterWord_append (hword : ∀ c ∈ word, isBlank c = false)
    (hrest : Halts (fun c => !isBlank c) rest) : afterWord (word ++ rest) = rest :=
  dropWhile_append_of_halts (fun c hc => by simp [hword c hc]) hrest

theorem halts_of_blank (h : Blank chars) : Halts (fun c => !isBlank c) chars := by
  intro c hc
  simp [h c (List.mem_of_head? hc)]

theorem IsGap.halts (h : IsGap lead) (chars : List Char) :
    Halts (fun c => !isBlank c) (lead ++ chars) := by
  obtain ⟨hsome, hblank⟩ := h
  cases lead with
  | nil =>
      exact absurd rfl hsome
  | cons c lead =>
      intro d hd
      cases hd
      simp [hblank c List.mem_cons_self]

/-- A word is cut off, whatever blanks stand before it, if a blank or nothing follows it. -/
theorem splitWord_append (hlead : Blank lead) (hword : IsWord word)
    (hrest : Halts (fun c => !isBlank c) rest) :
    splitWord (lead ++ (word ++ rest)) = (word, trim rest) := by
  obtain ⟨hsome, hvisible⟩ := hword
  have htrim : trimStart (word ++ rest) = word ++ rest := by
    cases word with
    | nil =>
        exact absurd rfl hsome
    | cons c word =>
        exact List.dropWhile_cons_of_neg (by simp [hvisible c List.mem_cons_self])
  simp only [splitWord, trimStart_append hlead, htrim, headWord_append hvisible hrest,
    afterWord_append hvisible hrest]

/-- Blanks at the end of a line do not change how it is cut. -/
theorem splitWord_append_blank (htrail : Blank trail) (chars : List Char) :
    splitWord (chars ++ trail) = splitWord chars := by
  unfold splitWord
  rcases trimStart_append_cases htrail chars with ⟨hempty, happend⟩ | happend
  · rw [happend, hempty]
  · rw [happend]
    generalize trimStart chars = body
    have hword : ∀ c ∈ headWord body, isBlank c = false := fun c hc => by
      simpa using List.mem_takeWhile_imp hc
    have hafter : Halts (fun c => !isBlank c) (afterWord body ++ trail) := by
      have hbody : Halts (fun c => !isBlank c) (afterWord body) := halts_dropWhile _ body
      cases hrest : afterWord body with
      | nil =>
          exact halts_of_blank htrail
      | cons c rest =>
          exact fun d hd => hbody d (by rw [hrest]; exact hd)
    have hbody : body ++ trail = headWord body ++ (afterWord body ++ trail) := by
      rw [← List.append_assoc, headWord_append_afterWord]
    simp only [hbody, headWord_append hword hafter, afterWord_append hword hafter,
      trim_append_blank htrail]

/-- Words are cut off a line as if it had not been trimmed. -/
theorem splitWord_trim (line : List Char) : splitWord (trim line) = splitWord line := by
  obtain ⟨trail, hline, htrail⟩ := exists_trimEnd (trimStart line)
  calc splitWord (trim line)
      = splitWord (trim line ++ trail) := (splitWord_append_blank htrail _).symm
    _ = splitWord (trimStart line) := by rw [trim, ← hline]
    _ = splitWord line := by simp only [splitWord, trimStart_trimStart]

end Text

namespace Json

variable {b : UInt8} {c : Char} {lead front rest trail tail : Bytes} {chars : List Char}

theorem encode_cons (c : Char) (chars : List Char) :
    encode (c :: chars) = String.utf8EncodeChar c ++ encode chars :=
  List.flatMap_cons

theorem high_of_mem_utf8EncodeChar (hmany : 127 < c.toNat) :
    ∀ b ∈ String.utf8EncodeChar c, 128 ≤ b.toNat := by
  have hcode : c.toNat = c.val.toNat := rfl
  simp only [String.utf8EncodeChar, ← hcode, if_neg (Nat.not_le.mpr hmany)]
  split_ifs <;>
    simp only [List.forall_mem_cons, List.not_mem_nil, false_implies, implies_true,
      UInt8.toNat_ofNat', and_true] <;>
    omega

/-- A byte that could be a character is one, and no part of a longer character. -/
theorem toNat_of_mem_utf8EncodeChar (h : b ∈ String.utf8EncodeChar c) (hb : b.toNat < 128) :
    String.utf8EncodeChar c = [b] ∧ c.toNat = b.toNat := by
  rcases utf8EncodeChar_cases c with ⟨hone, hchar⟩ | ⟨hmany, -⟩
  · rw [hchar, List.mem_singleton] at h
    rw [hchar, h]
    exact ⟨rfl, (toNat_ofNat_of_le hone).symm⟩
  · have := high_of_mem_utf8EncodeChar hmany b h
    omega

/-- Where a byte is a character of its own, the characters of a text can be cut. -/
theorem exists_of_encode (h : encode chars = front ++ b :: rest) (hb : b.toNat < 128) :
    ∃ chars₁ c chars₂, chars = chars₁ ++ c :: chars₂ ∧ encode chars₁ = front ∧
      c.toNat = b.toNat ∧ encode chars₂ = rest := by
  induction chars generalizing front with
  | nil =>
      simp [encode] at h
  | cons c chars ih =>
      rw [encode_cons, List.append_eq_append_iff] at h
      -- The byte comes after the first character, or is in it and then is all of it.
      rcases h with ⟨more, rfl, htail⟩ | ⟨more, hchar, htail⟩
      · obtain ⟨chars₁, d, chars₂, rfl, rfl, hd, hrest⟩ := ih htail
        exact ⟨c :: chars₁, d, chars₂, rfl, encode_cons c chars₁, hd, hrest⟩
      · cases more with
        | nil =>
            obtain ⟨chars₁, d, chars₂, rfl, hfront, hd, hrest⟩ := @ih [] htail.symm
            refine ⟨c :: chars₁, d, chars₂, rfl, ?_, hd, hrest⟩
            rw [encode_cons, hfront, hchar, List.append_nil, List.append_nil]
        | cons a more =>
            obtain ⟨rfl, rfl⟩ := List.cons.inj htail
            have hmem : b ∈ String.utf8EncodeChar c := by
              rw [hchar]
              exact List.mem_append_right _ List.mem_cons_self
            obtain ⟨hone, hc⟩ := toNat_of_mem_utf8EncodeChar hmem hb
            rw [hone] at hchar
            obtain ⟨rfl, rfl⟩ : front = [] ∧ more = [] := by
              simpa [List.singleton_eq_append_iff] using hchar
            exact ⟨[], c, chars, rfl, rfl, hc, rfl⟩

theorem skipSpace_eq_nil_iff : skipSpace rest = [] ↔ IsSpaces rest :=
  List.dropWhile_eq_nil_iff

/-- White space of a document is blank. -/
theorem blank_of_isSpaces (h : IsSpaces (encode chars)) : Text.Blank chars := by
  intro c hc
  have hbytes : ∀ b ∈ String.utf8EncodeChar c, isSpace b = true := fun b hb =>
    h b (List.mem_flatMap.mpr ⟨c, hc, hb⟩)
  obtain ⟨b, hb⟩ : ∃ b, b ∈ String.utf8EncodeChar c := by
    rcases utf8EncodeChar_cases c with ⟨-, hchar⟩ | ⟨-, b, tail, hchar, -⟩
    · exact ⟨_, by rw [hchar]; exact List.mem_cons_self⟩
    · exact ⟨b, by rw [hchar]; exact List.mem_cons_self⟩
  have hspace := isSpace_iff.mp (hbytes b hb)
  obtain ⟨-, hcode⟩ := toNat_of_mem_utf8EncodeChar hb (by omega)
  simp only [Text.isBlank, Bool.or_eq_true, Bool.and_eq_true, decide_eq_true_eq]
  omega

theorem not_isBlank_of_isVisible (hb : IsVisible b) (h : c.toNat = b.toNat) :
    Text.isBlank c = false := by
  obtain ⟨hlow, hhigh⟩ := hb
  simp only [Text.isBlank, Bool.or_eq_false_iff, Bool.and_eq_false_iff, decide_eq_false_iff_not]
  omega

/-- Blanks in front of a text of bytes are trimmed as characters. -/
theorem encode_trimStart (hlead : IsSpaces lead) (hb : IsVisible b)
    (h : encode chars = lead ++ b :: tail) : encode (Text.trimStart chars) = b :: tail := by
  obtain ⟨chars₁, c, chars₂, rfl, rfl, hc, rfl⟩ := exists_of_encode h hb.2
  have hblank := not_isBlank_of_isVisible hb hc
  have htrim : Text.trimStart (c :: chars₂) = c :: chars₂ :=
    List.dropWhile_cons_of_neg (by simp [hblank])
  rw [Text.trimStart_append (blank_of_isSpaces hlead), htrim]
  rw [encode_append] at h
  exact List.append_cancel_left h

/-- Blanks at the end of a text of bytes are trimmed as characters. -/
theorem encode_trimEnd (htrail : IsSpaces trail) (hb : IsVisible b)
    (h : encode chars = front ++ b :: trail) : encode (Text.trimEnd chars) = front ++ [b] := by
  obtain ⟨chars₁, c, chars₂, rfl, rfl, hc, rfl⟩ := exists_of_encode h hb.2
  have hblank := not_isBlank_of_isVisible hb hc
  have htrim : Text.trimEnd (chars₁ ++ [c]) = chars₁ ++ [c] := by
    simp [Text.trimEnd, hblank]
  rw [List.append_cons, Text.trimEnd_append (blank_of_isSpaces htrail), htrim]
  have hsplit : encode (chars₁ ++ [c]) ++ encode chars₂ =
      encode chars₁ ++ [b] ++ encode chars₂ := by
    rw [← encode_append, ← List.append_cons, h, ← List.append_cons]
  exact List.append_cancel_right hsplit

/-- Trimming takes off the white space around what starts and ends visibly. -/
theorem encode_trim (hlead : IsSpaces lead) (htrail : IsSpaces trail) (hb : IsVisible b)
    (hends : EndsVisible (b :: front)) (h : encode chars = lead ++ (b :: front ++ trail)) :
    encode (Text.trim chars) = b :: front := by
  obtain ⟨inner, last, hfront⟩ := (b :: front).eq_nil_or_concat.resolve_left (by simp)
  rw [List.concat_eq_append] at hfront
  have hlast : IsVisible last := hends last (by simp [hfront])
  have hstart : encode (Text.trimStart chars) = inner ++ last :: trail := by
    rw [encode_trimStart hlead hb h, List.append_cons, ← hfront]
    rfl
  rw [Text.trim, encode_trimEnd htrail hlast hstart, hfront]

theorem endOfText_eq_ok_iff : endOfText rest = .ok () ↔ IsSpaces rest := by
  rw [← skipSpace_eq_nil_iff, endOfText]
  cases skipSpace rest with
  | nil =>
      simp
  | cons b tail =>
      simp

/-- A text is read when a document and white space is all that it holds. -/
theorem read_eq_ok_iff {text : String} {document : Json} :
    read text = .ok document ↔
      ∃ rest, value maxDepth (encode text.toList) = .ok (document, rest) ∧ IsSpaces rest := by
  have hread : read text = .ok document ↔ readBytes (encode text.toList) = .ok document := by
    rw [read, bytesOf_eq]
    cases readBytes (encode text.toList) <;> simp [Except.mapError]
  rw [hread, readBytes]
  cases value maxDepth (encode text.toList) with
  | error stop =>
      simp
  | ok result =>
      obtain ⟨found, rest⟩ := result
      have hspaces := @endOfText_eq_ok_iff rest
      cases hend : endOfText rest <;> grind [Except.map]

/-- A text is read as before when it has been trimmed. -/
theorem read_trim {text : String} {document : Json} (h : read text = .ok document) :
    read (String.ofList (Text.trim text.toList)) = .ok document := by
  obtain ⟨trail, hvalue, htrail⟩ := read_eq_ok_iff.mp h
  obtain ⟨lead, b, front, htext, hlead, hb, hends, hagain⟩ := exists_of_value hvalue
  refine read_eq_ok_iff.mpr ⟨[], ?_, isSpaces_nil⟩
  rw [String.toList_ofList, encode_trim hlead htrail hb hends htext]
  simpa using hagain [] [] isSpaces_nil (replaces_nil trail)

end Json
end DocScript
