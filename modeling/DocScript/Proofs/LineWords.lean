import DocScript.Proofs.LineCuts
import DocScript.Proofs.ShellLines

/-!
# All words of a line

The shell has two ways to take a line apart. Some commands are given all words at once; others
cut off one word after the other and keep what remains, as it may be a document in which blanks
matter. Going on to cut until nothing is left gives the same words.

`Cuts` says what this comes to: the words with what remained after each of them. A remainder
has been trimmed, and the words are those of what was there before. So the words of a line are
the one that is cut off followed by the words of the remainder, and cutting ends because there
is a word less each time. What remains is always a piece of the line as it stands, with all
blanks inside of it; it starts and ends with a character that is not blank, and the line has
nothing but blanks after it.

**Results.**
* `Text.words_eq_filter_splitOnP`: the words are what lies between blanks and is not empty.
* `Text.words_trim`: trimming leaves the words.
* `Text.Cuts.words_eq`, `Text.Cuts.isRemainder`: the words that are cut off, and what remains.
* `cutting_gives_words`: cutting ends with all words, and leaves remainders as they stand.
-/

namespace DocScript
namespace Text

variable {chars line rest trail word : List Char}

section Words

/-- The words of a line are what lies between its blanks and is not empty. -/
theorem words_eq_filter_splitOnP (line : List Char) :
    words line = (line.splitOnP isBlank).filter fun word => !word.isEmpty := by
  suffices h : ∀ word, wordsFrom word line =
      (line.splitOnPPrepend isBlank word).filter fun word => !word.isEmpty from h []
  induction line with
  | nil =>
      intro word
      cases word <;> simp [wordsFrom]
  | cons c rest ih =>
      intro word
      rw [wordsFrom, List.splitOnPPrepend]
      by_cases hblank : isBlank c = true
      · cases word <;> simp [hblank, ih]
      · rw [if_neg hblank, if_neg hblank, ih]

theorem words_eq_nil_iff : words line = [] ↔ (splitWord line).1 = [] := by
  rw [words_eq]
  split <;> simp_all

theorem wordsFrom_append_blank (htrail : Blank trail) (word chars : List Char) :
    wordsFrom word (chars ++ trail) = wordsFrom word chars := by
  induction chars generalizing word with
  | nil =>
      induction trail generalizing word with
      | nil =>
          rfl
      | cons c trail ih =>
          obtain ⟨hc, hrest⟩ := List.forall_mem_cons.mp htrail
          have hblank := ih hrest []
          simp only [List.nil_append, wordsFrom] at hblank ⊢
          cases word <;> simp [hc, hblank]
  | cons c chars ih =>
      simp only [List.cons_append, wordsFrom, ih]

theorem words_append_blank (htrail : Blank trail) (chars : List Char) :
    words (chars ++ trail) = words chars :=
  wordsFrom_append_blank htrail [] chars

theorem words_trimStart (line : List Char) : words (trimStart line) = words line := by
  rw [words_eq, words_eq line, splitWord, splitWord, trimStart_trimStart]

/-- The words of a line are left as they are when it is trimmed. -/
theorem words_trim (line : List Char) : words (trim line) = words line := by
  obtain ⟨trail, hline, htrail⟩ := exists_trimEnd (trimStart line)
  calc words (trim line)
      = words (trim line ++ trail) := (words_append_blank htrail _).symm
    _ = words (trimStart line) := by rw [trim, ← hline]
    _ = words line := words_trimStart line

/-- The words of a line are the one that is cut off and the words of the remainder. -/
theorem words_eq_cons (h : splitWord line = (word, rest)) (hword : word ≠ []) :
    words line = word :: words rest := by
  have hrest : trim (afterWord (trimStart line)) = rest := congrArg Prod.snd h
  rw [words_eq, h, if_neg hword, ← hrest, words_trim]

end Words

section Remainders

/-- Neither the first nor the last character is blank. -/
structure Trimmed (chars : List Char) : Prop where
  first : ∀ c ∈ chars.head?, isBlank c = false
  last : ∀ c ∈ chars.getLast?, isBlank c = false

/-- A trimmed piece of a line that nothing but blanks follow in it. -/
structure IsRemainder (line rest : List Char) : Prop where
  trimmed : Trimmed rest
  piece : ∃ front trail, line = front ++ (rest ++ trail) ∧ Blank trail

theorem trimmed_trim (chars : List Char) : Trimmed (trim chars) := by
  obtain ⟨trail, hstart, htrail⟩ := exists_trimEnd (trimStart chars)
  refine ⟨fun c hc => ?_, fun c hc => ?_⟩
  · refine halts_dropWhile isBlank chars c ?_
    have hhead : (trimEnd (trimStart chars)).head? = some c := hc
    change c ∈ (trimStart chars).head?
    rw [hstart, List.head?_append, hhead]
    rfl
  · refine halts_dropWhile isBlank (trimStart chars).reverse c ?_
    rw [trim, trimEnd, List.getLast?_reverse] at hc
    exact hc

theorem isRemainder_trim (chars : List Char) : IsRemainder chars (trim chars) := by
  obtain ⟨lead, hlead, -⟩ := exists_dropWhile isBlank chars
  obtain ⟨trail, hstart, htrail⟩ := exists_trimEnd (trimStart chars)
  refine ⟨trimmed_trim chars, lead, trail, ?_, htrail⟩
  rw [trim, ← hstart]
  exact hlead

theorem IsRemainder.of_append (h : IsRemainder chars rest) (front : List Char) :
    IsRemainder (front ++ chars) rest := by
  obtain ⟨htrimmed, before, trail, rfl, htrail⟩ := h
  exact ⟨htrimmed, front ++ before, trail, by rw [List.append_assoc], htrail⟩

theorem IsRemainder.trans {later : List Char} (h : IsRemainder line rest)
    (h' : IsRemainder rest later) : IsRemainder line later := by
  obtain ⟨-, front, trail, rfl, htrail⟩ := h
  obtain ⟨htrimmed, before, more, rfl, hmore⟩ := h'
  refine ⟨htrimmed, front ++ before, more ++ trail, by simp, ?_⟩
  exact List.forall_mem_append.mpr ⟨hmore, htrail⟩

/-- What remains after the first word is a piece of the line. -/
theorem isRemainder_of_splitWord (h : splitWord line = (word, rest)) : IsRemainder line rest := by
  obtain ⟨lead, hline, -⟩ := exists_dropWhile isBlank line
  have hrest : trim (afterWord (trimStart line)) = rest := congrArg Prod.snd h
  have hsplit : line = (lead ++ headWord (trimStart line)) ++ afterWord (trimStart line) := by
    rw [List.append_assoc, headWord_append_afterWord]
    exact hline
  rw [hsplit, ← hrest]
  exact (isRemainder_trim _).of_append _

/-- A line without words leaves nothing. -/
theorem splitWord_of_words_eq_nil (h : words line = []) : splitWord line = ([], []) := by
  have hword : headWord (trimStart line) = [] := words_eq_nil_iff.mp h
  have hbody : trimStart line = [] := by
    cases hstart : trimStart line with
    | nil =>
        rfl
    | cons c tail =>
        have hblank : isBlank c = false := halts_dropWhile isBlank line c (by
          change c ∈ (trimStart line).head?
          rw [hstart]
          rfl)
        rw [hstart] at hword
        simp [headWord, hblank] at hword
  simp only [splitWord, hbody]
  rfl

end Remainders

/--
Cutting words off a line until there are none, with what remains after each of them. At the end
nothing remains.
-/
inductive Cuts : List Char → List (List Char × List Char) → Prop
  | done {line : List Char} (h : splitWord line = ([], [])) : Cuts line []
  | cut
      {line word rest : List Char} {cuts : List (List Char × List Char)}
      (h : splitWord line = (word, rest)) (hword : word ≠ []) (hrest : Cuts rest cuts) :
      Cuts line ((word, rest) :: cuts)

namespace Cuts

variable {cuts cuts' : List (List Char × List Char)}

/-- The words that are cut off are all words of the line. -/
theorem words_eq (h : Cuts line cuts) : cuts.map Prod.fst = words line := by
  induction h with
  | done h =>
      exact (words_eq_nil_iff.mpr (congrArg Prod.fst h)).symm
  | cut h hword _ ih =>
      rw [List.map_cons, ih, words_eq_cons h hword]

theorem unique (h : Cuts line cuts) (h' : Cuts line cuts') : cuts = cuts' := by
  induction h generalizing cuts' with
  | done h =>
      cases h' with
      | done =>
          rfl
      | cut h' hword _ =>
          rw [h] at h'
          exact absurd (congrArg Prod.fst h').symm hword
  | cut h hword _ ih =>
      cases h' with
      | done h' =>
          rw [h] at h'
          exact absurd (congrArg Prod.fst h') hword
      | cut h' _ hrest =>
          rw [h] at h'
          cases h'
          rw [ih hrest]

theorem isRemainder (h : Cuts line cuts) : ∀ cut ∈ cuts, IsRemainder line cut.2 := by
  induction h with
  | done h =>
      exact fun _ hcut => nomatch hcut
  | cut h hword _ ih =>
      have hfirst := isRemainder_of_splitWord h
      exact List.forall_mem_cons.mpr ⟨hfirst, fun cut hcut => hfirst.trans (ih cut hcut)⟩

end Cuts

/-- Cutting comes to an end, as there is a word less each time. -/
theorem exists_cuts (line : List Char) : ∃ cuts, Cuts line cuts := by
  induction hwords : words line generalizing line with
  | nil =>
      exact ⟨[], .done (splitWord_of_words_eq_nil hwords)⟩
  | cons first others ih =>
      have hword : (splitWord line).1 ≠ [] := fun hnone => by
        rw [words_eq_nil_iff.mpr hnone] at hwords
        cases hwords
      have hsplit : words line = (splitWord line).1 :: words (splitWord line).2 :=
        words_eq_cons rfl hword
      rw [hwords] at hsplit
      obtain ⟨cuts, hcuts⟩ := ih _ (List.cons.inj hsplit).2.symm
      exact ⟨_, .cut rfl hword hcuts⟩

end Text

open Text in
/--
The two ways of taking a line apart agree. To cut words off a line until there are none comes to
an end, in one way only, and gives all words of the line in order, which are what lies between
blanks and is not empty. After each word there remains a piece of the line as it stands. It
starts and ends with what is not blank, and only blanks follow it in the line.
-/
theorem cutting_gives_words (line : List Char) :
    words line = (line.splitOnP isBlank).filter (fun word => !word.isEmpty) ∧
    ∃ cuts, Cuts line cuts ∧ (∀ other, Cuts line other → other = cuts) ∧
      cuts.map Prod.fst = words line ∧
      ∀ cut ∈ cuts,
        (∃ front trail, line = front ++ (cut.2 ++ trail) ∧ Blank trail) ∧
        (∀ c ∈ cut.2.head?, isBlank c = false) ∧
        ∀ c ∈ cut.2.getLast?, isBlank c = false := by
  obtain ⟨cuts, hcuts⟩ := exists_cuts line
  refine ⟨words_eq_filter_splitOnP line, cuts, hcuts, fun other hother => hother.unique hcuts,
    hcuts.words_eq, fun cut hcut => ?_⟩
  have hremains := hcuts.isRemainder cut hcut
  exact ⟨hremains.piece, hremains.trimmed.first, hremains.trimmed.last⟩

/-- A call whose argument has blanks inside, among blanks of several kinds. -/
def Text.callLine : List Char :=
  "\u2003run\u00a0f  [1,  2]\n".toList

theorem cutting_gives_words_callLine :
    Text.words Text.callLine = ["run".toList, "f".toList, "[1,".toList, "2]".toList] ∧
    (Text.splitWord (Text.splitWord Text.callLine).2).2 = "[1,  2]".toList ∧
    ∃ front trail, Text.callLine = front ++ ("[1,  2]".toList ++ trail) ∧ Text.Blank trail := by
  obtain ⟨-, cuts, hcuts, hunique, hwords, hremains⟩ := cutting_gives_words Text.callLine
  have hcut : Text.Cuts Text.callLine
      [("run".toList, "f  [1,  2]".toList), ("f".toList, "[1,  2]".toList),
        ("[1,".toList, "2]".toList), ("2]".toList, [])] :=
    .cut (by decide) (by decide) (.cut (by decide) (by decide)
      (.cut (by decide) (by decide) (.cut (by decide) (by decide) (.done (by decide)))))
  obtain rfl := hunique _ hcut
  have hdocument := hremains ("f".toList, "[1,  2]".toList) (by simp)
  exact ⟨hwords.symm, by decide, hdocument.1⟩

end DocScript
