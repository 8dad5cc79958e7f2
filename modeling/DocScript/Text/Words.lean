/-!
# Words of a line

A line of text is cut into words at white space, where white space is the
Unicode property of that name and not only its ASCII part. Two ways of cutting
are provided: all words at once, and the first word together with the trimmed
remainder, whose inner spacing is kept.
-/

namespace DocScript
namespace Text

/-- White space in the sense of the Unicode property of that name. -/
def isBlank (c : Char) : Bool :=
  let n := c.toNat
  (9 ≤ n && n ≤ 13) || n = 0x20 || n = 0x85 || n = 0xA0 || n = 0x1680
    || (0x2000 ≤ n && n ≤ 0x200A) || n = 0x2028 || n = 0x2029 || n = 0x202F
    || n = 0x205F || n = 0x3000

/-- The line without the blanks it starts with. -/
def trimStart (line : List Char) : List Char :=
  line.dropWhile isBlank

/-- The line without the blanks it ends with. -/
def trimEnd (line : List Char) : List Char :=
  (line.reverse.dropWhile isBlank).reverse

/-- The line without the blanks at its two ends. -/
def trim (line : List Char) : List Char :=
  trimEnd (trimStart line)

/-- The characters up to the first blank. -/
def headWord (line : List Char) : List Char :=
  line.takeWhile (fun c => !isBlank c)

/-- The characters from the first blank on. -/
def afterWord (line : List Char) : List Char :=
  line.dropWhile (fun c => !isBlank c)

/--
The first word of a line and the remainder, trimmed at both ends. The word is
empty exactly when the line is blank.
-/
def splitWord (line : List Char) : List Char × List Char :=
  let body := trimStart line
  (headWord body, trim (afterWord body))

/--
Collects words: `word` holds the characters of the word being read, last one
first.
-/
def wordsFrom (word : List Char) : List Char → List (List Char)
  | [] => if word.isEmpty then [] else [word.reverse]
  | c :: rest =>
      if isBlank c then
        if word.isEmpty then wordsFrom [] rest
        else word.reverse :: wordsFrom [] rest
      else wordsFrom (c :: word) rest

/-- All words of a line, in order. -/
def words (line : List Char) : List (List Char) :=
  wordsFrom [] line

@[simp] theorem trimStart_nil : trimStart [] = [] := rfl

@[simp] theorem words_nil : words [] = [] := rfl

/-- No word of the line is lost between the first word and the remainder. -/
theorem headWord_append_afterWord (line : List Char) :
    headWord line ++ afterWord line = line := by
  exact List.takeWhile_append_dropWhile

end Text
end DocScript
