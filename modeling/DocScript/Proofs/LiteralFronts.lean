import DocScript.Proofs.StatementLines
import Mathlib.Data.List.TakeWhile

/-!
# What a literal takes up

A literal that is read takes up a front part of the text, and what is found there does not
depend on what follows. The reader looks at one byte beyond a numeral, to see that it is not
continued, and at none beyond a string. So what follows a literal can be replaced by something
that starts alike, by white space, or by nothing at all. What is taken up does not end with a
blank.

A numeral is read in parts, each of which may be the last. `Takes` is what holds of each part,
and of the parts together.

**Results.**
* `Numeral.read_takes`: the front part that a numeral takes up.
* `StringLiteral.read_takes`: the front part that a string takes up.
-/

namespace DocScript

/-- What does not start with something of a given kind. -/
def Halts {α : Type} (kind : α → Bool) (rest : List α) : Prop :=
  ∀ b ∈ rest.head?, kind b = false

section Halts

variable {α : Type} {kind : α → Bool} {front rest : List α}

theorem halts_nil (kind : α → Bool) : Halts kind [] := by
  intro b hb
  cases hb

theorem exists_of_not_halts (h : ¬ Halts kind rest) :
    ∃ b tail, rest = b :: tail ∧ kind b = true := by
  cases rest with
  | nil =>
      exact absurd (halts_nil kind) h
  | cons b tail =>
      refine ⟨b, tail, rfl, Decidable.byContradiction fun hb => h fun c hc => ?_⟩
      cases hc
      simpa using hb

/-- A text starts with things of a kind, and goes on with what is left of it without them. -/
theorem exists_dropWhile (kind : α → Bool) (text : List α) :
    ∃ front, text = front ++ text.dropWhile kind ∧ ∀ b ∈ front, kind b = true :=
  ⟨text.takeWhile kind, List.takeWhile_append_dropWhile.symm,
    fun _ hb => List.mem_takeWhile_imp hb⟩

/-- What is left halts where the characters of a kind end. -/
theorem halts_dropWhile (kind : α → Bool) (text : List α) :
    Halts kind (text.dropWhile kind) := by
  intro b hb
  have hnot := List.head?_dropWhile_not kind text
  rw [Option.mem_def.mp hb] at hnot
  simpa using hnot

/-- The characters of a kind are dropped up to where the rest halts. -/
theorem dropWhile_append_of_halts (hfront : ∀ b ∈ front, kind b = true) (h : Halts kind rest) :
    (front ++ rest).dropWhile kind = rest := by
  rw [List.dropWhile_append_of_pos hfront]
  cases rest with
  | nil =>
      rfl
  | cons b rest =>
      exact List.dropWhile_cons_of_neg (by simp [h b rfl])

theorem takeWhile_append_of_halts (hfront : ∀ b ∈ front, kind b = true) (h : Halts kind rest) :
    (front ++ rest).takeWhile kind = front := by
  rw [List.takeWhile_append_of_pos hfront]
  cases rest with
  | nil =>
      exact List.append_nil front
  | cons b rest =>
      rw [List.takeWhile_cons_of_neg (by simp [h b rfl]), List.append_nil]

/-- Fronts of one kind are told from what follows them. -/
theorem append_inj_of_halts {front' rest' : List α} (hfront : ∀ b ∈ front, kind b = true)
    (hfront' : ∀ b ∈ front', kind b = true) (hrest : Halts kind rest) (hrest' : Halts kind rest')
    (h : front ++ rest = front' ++ rest') : front = front' ∧ rest = rest' := by
  have htake := congrArg (List.takeWhile kind) h
  have hdrop := congrArg (List.dropWhile kind) h
  rw [takeWhile_append_of_halts hfront hrest, takeWhile_append_of_halts hfront' hrest'] at htake
  rw [dropWhile_append_of_halts hfront hrest, dropWhile_append_of_halts hfront' hrest'] at hdrop
  exact ⟨htake, hdrop⟩

end Halts

namespace Json

/-- A byte that is no blank, and no part of a longer character. -/
def IsVisible (b : UInt8) : Prop :=
  32 < b.toNat ∧ b.toNat < 128

instance (b : UInt8) : Decidable (IsVisible b) :=
  inferInstanceAs (Decidable (_ ∧ _))

/-- White space of a document, and nothing else. -/
def IsSpaces (bytes : Bytes) : Prop :=
  ∀ b ∈ bytes, isSpace b = true

/-- Bytes that do not end with a blank, if there are any. -/
def EndsVisible (front : Bytes) : Prop :=
  ∀ b ∈ front.getLast?, IsVisible b

/-- What follows a document is replaced by something that starts alike or does not go on. -/
def Replaces (rest rest' : Bytes) : Prop :=
  rest'.head? = rest.head? ∨ ∀ b ∈ rest'.head?, isSpace b = true

/-- A reading takes up a front part of a text, and does so whatever follows. -/
structure Takes {α : Type} (reads : Bytes → α → Bytes → Prop) (result : α) (front rest : Bytes) :
    Prop where
  visible : EndsVisible front
  again {rest' : Bytes} (h : Replaces rest rest') : reads (front ++ rest') result rest'

/-- What is read takes up a front part of the text, and not an empty one. -/
def Fronted {α : Type} (reads : Bytes → α → Bytes → Prop) : Prop :=
  ∀ ⦃text result rest⦄, reads text result rest →
    ∃ front, text = front ++ rest ∧ front ≠ [] ∧ Takes reads result front rest

section Bytes

variable {front more rest rest' : Bytes} {kind : UInt8 → Bool}

theorem endsVisible_nil : EndsVisible [] := by
  intro b hb
  cases hb

theorem isSpaces_nil : IsSpaces [] :=
  List.forall_mem_nil _

/-- Nothing at all can replace what follows a document. -/
theorem replaces_nil (rest : Bytes) : Replaces rest [] := by
  refine .inr fun b hb => ?_
  cases hb

/-- Two texts that end visibly do so together. -/
theorem EndsVisible.append (hfront : EndsVisible front) (hmore : EndsVisible more) :
    EndsVisible (front ++ more) := by
  intro b hb
  rw [List.getLast?_append] at hb
  cases hlast : more.getLast? with
  | none =>
      rw [hlast, Option.none_or] at hb
      exact hfront b hb
  | some =>
      rw [hlast, Option.some_or] at hb
      exact hmore b (hlast ▸ hb)

theorem endsVisible_singleton {b : UInt8} (h : IsVisible b) : EndsVisible [b] :=
  fun _ hc => Option.mem_some.mp hc ▸ h

/-- What comes before some bytes does not matter, if there are any. -/
theorem EndsVisible.of_right (hmore : EndsVisible more) (hsome : more ≠ []) :
    EndsVisible (front ++ more) := by
  intro b hb
  rw [List.getLast?_append, List.getLast?_eq_some_getLast hsome, Option.some_or] at hb
  exact hmore b (List.getLast?_eq_some_getLast hsome ▸ hb)

theorem Replaces.append (h : Replaces rest rest') (front : Bytes) :
    Replaces (front ++ rest) (front ++ rest') := by
  cases front with
  | nil =>
      exact h
  | cons b front =>
      exact .inl rfl

theorem replaces_of_ne_nil (h : front ≠ []) (rest rest' : Bytes) :
    Replaces (front ++ rest) (front ++ rest') := by
  cases front with
  | nil =>
      exact absurd rfl h
  | cons b front =>
      exact .inl rfl

/-- Another rest halts where the first does, as spaces are of no kind that is looked for. -/
theorem Replaces.halts (h : Replaces rest rest') (hspace : ∀ b, isSpace b = true → kind b = false)
    (hrest : Halts kind rest) : Halts kind rest' := by
  intro b hb
  rcases h with h | h
  · exact hrest b (h ▸ hb)
  · exact hspace b (h b hb)

/-- What is taken up after some bytes is taken up together with them. -/
theorem Takes.prepend {α : Type} {reads reads' : Bytes → α → Bytes → Prop} {result : α}
    (h : Takes reads result front rest) (hbytes : EndsVisible more)
    (hreads : ∀ rest', reads (front ++ rest') result rest' →
      reads' (more ++ (front ++ rest')) result rest') :
    Takes reads' result (more ++ front) rest where
  visible := hbytes.append h.visible
  again hrest := by
    rw [List.append_assoc]
    exact hreads _ (h.again hrest)

end Bytes

namespace Numeral

variable {b : UInt8} {text rest : Bytes} {negative : Bool} {significand left exponent : Nat}
variable {start : Int} {number : Number}

theorem isDigit_iff : isDigit b = true ↔ 48 ≤ b.toNat ∧ b.toNat ≤ 57 := by
  simp only [isDigit, Bool.and_eq_true, decide_eq_true_eq, UInt8.le_iff_toNat_le]
  rfl

theorem isVisible_of_isDigit (h : isDigit b = true) : IsVisible b := by
  rw [isDigit_iff] at h
  unfold IsVisible
  omega

theorem not_isDigit_of_isSpace (b : UInt8) (h : isSpace b = true) : isDigit b = false := by
  rw [isSpace_iff] at h
  rw [← Bool.not_eq_true, isDigit_iff]
  omega

/-- The letters that announce an exponent. -/
def isExponentMark (b : UInt8) : Bool :=
  b = Byte.capitalE || b = Byte.smallE

/-- The bytes that may follow the digits before the point, and are no digits. -/
def isMark (b : UInt8) : Bool :=
  b = Byte.point || isExponentMark b

theorem not_isMark_of_isSpace (b : UInt8) (h : isSpace b = true) : isMark b = false := by
  simp only [isSpace, Bool.or_eq_true, decide_eq_true_eq] at h
  rcases h with ((rfl | rfl) | rfl) | rfl <;> decide

theorem not_isExponentMark_of_isSpace (b : UInt8) (h : isSpace b = true) :
    isExponentMark b = false :=
  (Bool.or_eq_false_iff.mp (not_isMark_of_isSpace b h)).2

/-- Digits are visible. -/
theorem endsVisible_of_digits {digits : Bytes} (h : ∀ b ∈ digits, isDigit b = true) :
    EndsVisible digits :=
  fun b hb => isVisible_of_isDigit (h b (List.mem_of_getLast? hb))

/-- What follows a real number is not looked at. -/
theorem realOf_takes (h : realOf negative significand start text = .ok (number, rest)) :
    text = rest ∧ ∀ rest', realOf negative significand start rest' = .ok (number, rest') := by
  unfold realOf at h ⊢
  split at h
  · cases h
    exact ⟨rfl, fun _ => rfl⟩
  · cases h

theorem gatherExponent_of_halts (h : Halts isDigit text) :
    gatherExponent exponent text = (some exponent, text) := by
  cases text with
  | nil =>
      rfl
  | cons d text =>
      rw [gatherExponent, h d rfl]
      rfl

/-- Digits are gathered up to the first character that is none, whatever follows it. -/
theorem gatherExponent_takes {gathered : Option Nat}
    (h : gatherExponent exponent text = (gathered, rest)) :
    ∃ front, text = front ++ rest ∧
      Takes (fun text gathered rest => gatherExponent exponent text = (gathered, rest))
        gathered front rest := by
  induction text generalizing exponent with
  | nil =>
      cases h
      exact ⟨[], rfl, endsVisible_nil, fun hrest =>
        gatherExponent_of_halts (hrest.halts not_isDigit_of_isSpace (halts_nil _))⟩
  | cons d text ih =>
      rw [gatherExponent] at h
      split at h
      · rename_i hdigit
        have hvisible := endsVisible_singleton (isVisible_of_isDigit hdigit)
        simp only at h
        split at h
        · rename_i hroom
          obtain ⟨front, rfl, htakes⟩ := ih h
          refine ⟨d :: front, rfl, htakes.prepend hvisible fun rest' hgather => ?_⟩
          rw [List.singleton_append, gatherExponent, if_pos hdigit]
          simp only [if_pos hroom, hgather]
        · rename_i hroom
          cases h
          refine ⟨[d], rfl, hvisible, fun _ => ?_⟩
          rw [List.singleton_append, gatherExponent, if_pos hdigit]
          simp only [if_neg hroom]
      · rename_i hdigit
        cases h
        refine ⟨[], rfl, endsVisible_nil, fun hrest => gatherExponent_of_halts ?_⟩
        refine hrest.halts not_isDigit_of_isSpace fun c hc => ?_
        cases hc
        simpa using hdigit

/-- The sign of an exponent is read before its digits, and may be left out. -/
theorem exponentSign_takes {down : Bool} {d : UInt8} {tail : Bytes} (hdigit : isDigit d = true)
    (h : exponentSign text = (down, d :: tail)) :
    ∃ sign, text = sign ++ d :: tail ∧ EndsVisible sign ∧
      ∀ tail', exponentSign (sign ++ d :: tail') = (down, d :: tail') := by
  rw [isDigit_iff] at hdigit
  unfold exponentSign at h
  split at h
  · cases h
    exact ⟨[Byte.plus], rfl, endsVisible_singleton (by decide), fun _ => rfl⟩
  · cases h
    exact ⟨[Byte.minus], rfl, endsVisible_singleton (by decide), fun _ => rfl⟩
  · cases h
    refine ⟨[], rfl, endsVisible_nil, fun tail' => ?_⟩
    have hplus : d ≠ Byte.plus := by
      rintro rfl
      exact absurd hdigit (by decide)
    have hminus : d ≠ Byte.minus := by
      rintro rfl
      exact absurd hdigit (by decide)
    rw [List.nil_append, exponentSign]
    · exact fun _ heq => hplus (List.cons.inj heq).1
    · exact fun _ heq => hminus (List.cons.inj heq).1

section Exponents

variable {down : Bool} {d : UInt8} {tail beyond : Bytes}

/-- An exponent moves the one that the digits start with, up or down. -/
theorem exponentPart_of_some (hsign : exponentSign text = (down, d :: tail))
    (hdigit : isDigit d = true)
    (hgather : gatherExponent (digitValue d) tail = (some exponent, beyond)) :
    exponentPart negative significand start text =
      realOf negative significand (if down then start - exponent else start + exponent) beyond := by
  simp only [exponentPart, hsign, if_pos hdigit, hgather]

/-- An exponent out of range, where the number is zero or becomes too small to be told from it. -/
theorem exponentPart_of_none (hsign : exponentSign text = (down, d :: tail))
    (hdigit : isDigit d = true)
    (hgather : gatherExponent (digitValue d) tail = (none, beyond)) :
    exponentPart negative significand start text =
      if significand ≠ 0 ∧ !down then .error ⟨.numberOutOfRange, beyond.length⟩
      else .ok (.real (signed negative 0), beyond.dropWhile isDigit) := by
  simp only [exponentPart, hsign, if_pos hdigit, hgather]

/-- An exponent has one digit at least. -/
theorem exists_of_exponentPart
    (h : exponentPart negative significand start text = .ok (number, rest)) :
    ∃ down d tail, exponentSign text = (down, d :: tail) ∧ isDigit d = true := by
  rcases hsign : exponentSign text with ⟨down, digits⟩
  simp only [exponentPart, hsign] at h
  cases digits with
  | nil =>
      cases h
  | cons d tail =>
      simp only at h
      split at h
      · rename_i hdigit
        exact ⟨down, d, tail, rfl, hdigit⟩
      · cases h

/-- An exponent is read again whatever follows it. -/
theorem exponentPart_takes
    (h : exponentPart negative significand start text = .ok (number, rest)) :
    ∃ front, text = front ++ rest ∧
      Takes (fun text number rest =>
        exponentPart negative significand start text = .ok (number, rest)) number front rest := by
  obtain ⟨down, d, tail, hsign, hdigit⟩ := exists_of_exponentPart h
  obtain ⟨sign, rfl, hvisible, hagain⟩ := exponentSign_takes hdigit hsign
  rcases hgather : gatherExponent (digitValue d) tail with ⟨gathered, beyond⟩
  obtain ⟨front, rfl, htakes⟩ := gatherExponent_takes hgather
  have hfront : EndsVisible (sign ++ d :: front) :=
    hvisible.append ((endsVisible_singleton (isVisible_of_isDigit hdigit)).append htakes.visible)
  cases gathered with
  | some exponent =>
      rw [exponentPart_of_some hsign hdigit hgather] at h
      obtain ⟨rfl, hreal⟩ := realOf_takes h
      refine ⟨sign ++ d :: front, by simp, hfront, fun {rest'} hrest => ?_⟩
      rw [List.append_assoc, List.cons_append,
        exponentPart_of_some (hagain _) hdigit (htakes.again hrest), hreal]
  | none =>
      -- The digits after the one that takes the exponent out of range are passed over.
      rw [exponentPart_of_none hsign hdigit hgather] at h
      split at h
      · cases h
      · rename_i hzero
        cases h
        obtain ⟨skipped, hskipped, hall⟩ := exists_dropWhile isDigit beyond
        refine ⟨sign ++ d :: front ++ skipped, ?_, hfront.append (endsVisible_of_digits hall),
          fun {rest'} hrest => ?_⟩
        · rw [List.append_assoc, ← hskipped, List.append_assoc, List.cons_append]
        · have hbeyond : Replaces beyond (skipped ++ rest') := hskipped ▸ hrest.append skipped
          have hhalts := hrest.halts not_isDigit_of_isSpace (halts_dropWhile isDigit beyond)
          rw [List.append_assoc, List.append_assoc, List.cons_append,
            exponentPart_of_none (hagain _) hdigit (htakes.again hbeyond), if_neg hzero,
            dropWhile_append_of_halts hall hhalts]

end Exponents

theorem isVisible_of_isExponentMark (h : isExponentMark b = true) : IsVisible b := by
  simp only [isExponentMark, Bool.or_eq_true, decide_eq_true_eq] at h
  rcases h with rfl | rfl <;> decide

theorem afterFraction_of_halts (h : Halts isExponentMark text) :
    afterFraction negative significand start text = realOf negative significand start text := by
  unfold afterFraction
  split
  · exact absurd (h _ rfl) (by decide)
  · exact absurd (h _ rfl) (by decide)
  · rfl

theorem afterFraction_exponentMark (h : isExponentMark b = true) (tail : Bytes) :
    afterFraction negative significand start (b :: tail) =
      exponentPart negative significand start tail := by
  simp only [isExponentMark, Bool.or_eq_true, decide_eq_true_eq] at h
  rcases h with rfl | rfl <;> rfl

/-- What comes after a fraction is read again whatever follows it. -/
theorem afterFraction_takes
    (h : afterFraction negative significand start text = .ok (number, rest)) :
    ∃ front, text = front ++ rest ∧
      Takes (fun text number rest =>
        afterFraction negative significand start text = .ok (number, rest)) number front rest := by
  by_cases hhalts : Halts isExponentMark text
  · rw [afterFraction_of_halts hhalts] at h
    obtain ⟨rfl, hreal⟩ := realOf_takes h
    refine ⟨[], rfl, endsVisible_nil, fun hrest => ?_⟩
    rw [List.nil_append,
      afterFraction_of_halts (hrest.halts not_isExponentMark_of_isSpace hhalts), hreal]
  · obtain ⟨b, tail, rfl, hmark⟩ := exists_of_not_halts hhalts
    rw [afterFraction_exponentMark hmark] at h
    obtain ⟨front, rfl, htakes⟩ := exponentPart_takes h
    refine ⟨b :: front, rfl, htakes.prepend
      (endsVisible_singleton (isVisible_of_isExponentMark hmark)) fun rest' hagain => ?_⟩
    exact (afterFraction_exponentMark hmark _).trans hagain

/-- Digits after the point move the exponent down, one for each of them that is kept. -/
theorem fractionPart_of_digits {digits : Bytes} (hall : ∀ b ∈ digits, isDigit b = true)
    (hsome : digits ≠ []) (hhalts : Halts isDigit text) :
    fractionPart negative significand start (digits ++ text) =
      afterFraction negative (gather significand digits).1
        (start - (digits.length - (gather significand digits).2 : Nat)) text := by
  unfold fractionPart
  rw [takeWhile_append_of_halts hall hhalts, dropWhile_append_of_halts hall hhalts]
  simp only [List.isEmpty_iff, if_neg hsome]

/-- A fraction is read again whatever follows it. -/
theorem fractionPart_takes
    (h : fractionPart negative significand start text = .ok (number, rest)) :
    ∃ front, text = front ++ rest ∧
      Takes (fun text number rest =>
        fractionPart negative significand start text = .ok (number, rest)) number front rest := by
  obtain ⟨digits, hdigits, hall⟩ := exists_dropWhile isDigit text
  have hhalts := halts_dropWhile isDigit text
  generalize text.dropWhile isDigit = tail at hdigits hhalts
  subst hdigits
  have hsome : digits ≠ [] := by
    rintro rfl
    unfold fractionPart at h
    rw [takeWhile_append_of_halts hall hhalts, dropWhile_append_of_halts hall hhalts] at h
    cases tail <;> cases h
  rw [fractionPart_of_digits hall hsome hhalts] at h
  obtain ⟨front, rfl, htakes⟩ := afterFraction_takes h
  refine ⟨digits ++ front, by simp, (endsVisible_of_digits hall).append htakes.visible,
    fun {rest'} hrest => ?_⟩
  have hhalts' := (hrest.append front).halts not_isDigit_of_isSpace hhalts
  rw [List.append_assoc, fractionPart_of_digits hall hsome hhalts']
  exact htakes.again hrest

theorem afterInteger_of_halts (h : Halts isMark text) :
    afterInteger negative significand left text =
      if left = 0 then .ok (wholeOf negative significand, text)
      else realOf negative significand left text := by
  unfold afterInteger
  split
  · exact absurd (h _ rfl) (by decide)
  · exact absurd (h _ rfl) (by decide)
  · exact absurd (h _ rfl) (by decide)
  · rfl

theorem afterInteger_exponentMark (h : isExponentMark b = true) (tail : Bytes) :
    afterInteger negative significand left (b :: tail) =
      exponentPart negative significand left tail := by
  simp only [isExponentMark, Bool.or_eq_true, decide_eq_true_eq] at h
  rcases h with rfl | rfl <;> rfl

/-- What comes after the whole part is read again whatever follows it. -/
theorem afterInteger_takes
    (h : afterInteger negative significand left text = .ok (number, rest)) :
    ∃ front, text = front ++ rest ∧
      Takes (fun text number rest =>
        afterInteger negative significand left text = .ok (number, rest)) number front rest := by
  by_cases hhalts : Halts isMark text
  · rw [afterInteger_of_halts hhalts] at h
    have hagain : text = rest ∧ ∀ rest', (if left = 0 then .ok (wholeOf negative significand, rest')
        else realOf negative significand left rest') = .ok (number, rest') := by
      split at h
      · rename_i hroom
        cases h
        exact ⟨rfl, fun _ => if_pos hroom⟩
      · rename_i hroom
        simpa only [if_neg hroom] using realOf_takes h
    obtain ⟨rfl, hagain⟩ := hagain
    refine ⟨[], rfl, endsVisible_nil, fun hrest => ?_⟩
    rw [List.nil_append, afterInteger_of_halts (hrest.halts not_isMark_of_isSpace hhalts), hagain]
  · obtain ⟨b, tail, rfl, hmark⟩ := exists_of_not_halts hhalts
    rcases (Bool.or_eq_true _ _).mp hmark with hpoint | hmark
    · cases of_decide_eq_true hpoint
      obtain ⟨front, rfl, htakes⟩ := fractionPart_takes h
      exact ⟨Byte.point :: front, rfl,
        htakes.prepend (endsVisible_singleton (by decide)) fun rest' hagain => hagain⟩
    · rw [afterInteger_exponentMark hmark] at h
      obtain ⟨front, rfl, htakes⟩ := exponentPart_takes h
      refine ⟨b :: front, rfl, htakes.prepend
        (endsVisible_singleton (isVisible_of_isExponentMark hmark)) fun rest' hagain => ?_⟩
      exact (afterInteger_exponentMark hmark _).trans hagain

theorem read_zero (hhalts : Halts isDigit text) :
    read negative (Byte.zero :: text) = afterInteger negative 0 0 text := by
  cases text with
  | nil =>
      rfl
  | cons c beyond =>
      have hc : isDigit c = false := hhalts c rfl
      have hdigit : isDigit Byte.zero = true := by decide
      simp [read, hdigit, hc]

/--
A numeral that does not start with zero has its digits gathered up to the first other
character.
-/
theorem read_digits {digits : Bytes} (hdigit : isDigit b = true) (hzero : b ≠ Byte.zero)
    (hall : ∀ b ∈ digits, isDigit b = true) (hhalts : Halts isDigit text) :
    read negative (b :: (digits ++ text)) =
      afterInteger negative (gather (digitValue b) digits).1 (gather (digitValue b) digits).2
        text := by
  simp only [read, hdigit, Bool.not_true, Bool.false_eq_true, if_false, if_neg hzero,
    takeWhile_append_of_halts hall hhalts, dropWhile_append_of_halts hall hhalts]

/-- A numeral takes up at least one digit. -/
theorem read_takes (negative : Bool) :
    Fronted fun text number rest => read negative text = .ok (number, rest) := by
  intro text number rest h
  cases text with
  | nil =>
      cases h
  | cons b text =>
      have hdigit : isDigit b = true := by
        by_contra hdigit
        simp [read.eq_def, Bool.eq_false_iff.mpr hdigit] at h
      have hvisible := endsVisible_singleton (isVisible_of_isDigit hdigit)
      by_cases hzero : b = Byte.zero
      · subst hzero
        have hhalts : Halts isDigit text := by
          by_contra hhalts
          obtain ⟨c, beyond, rfl, hc⟩ := exists_of_not_halts hhalts
          simp [read, hdigit, hc] at h
        rw [read_zero hhalts] at h
        obtain ⟨front, rfl, htakes⟩ := afterInteger_takes h
        refine ⟨Byte.zero :: front, rfl, List.cons_ne_nil _ _, hvisible.append htakes.visible,
          fun {rest'} hrest => ?_⟩
        have hhalts' := (hrest.append front).halts not_isDigit_of_isSpace hhalts
        exact (read_zero hhalts').trans (htakes.again hrest)
      · obtain ⟨digits, hdigits, hall⟩ := exists_dropWhile isDigit text
        have hhalts := halts_dropWhile isDigit text
        generalize text.dropWhile isDigit = tail at hdigits hhalts
        subst hdigits
        rw [read_digits hdigit hzero hall hhalts] at h
        obtain ⟨front, rfl, htakes⟩ := afterInteger_takes h
        refine ⟨b :: (digits ++ front), by simp, List.cons_ne_nil _ _,
          hvisible.append ((endsVisible_of_digits hall).append htakes.visible),
          fun {rest'} hrest => ?_⟩
        have hhalts' := (hrest.append front).halts not_isDigit_of_isSpace hhalts
        rw [List.cons_append, List.append_assoc, read_digits hdigit hzero hall hhalts']
        exact htakes.again hrest

end Numeral

namespace StringLiteral

variable {mode : Mode} {done text content rest : Bytes}

/--
A byte ends a literal, or the reading of it stops there, or it goes on. What follows has no part
in this.
-/
theorem scan_cons_cases (mode : Mode) (done : Bytes) (b : UInt8) :
    (b = Byte.quote ∧ ∀ text, scan mode done (b :: text) = .ok (done.reverse, text)) ∨
    (∃ reason, ∀ text, scan mode done (b :: text) = .error ⟨reason, text.length⟩) ∨
    ∃ mode' done', ∀ text, scan mode done (b :: text) = scan mode' done' text := by
  cases mode with
  | plain =>
      by_cases hquote : b = Byte.quote
      · exact .inl ⟨hquote, fun text => by simp only [scan, if_pos hquote]⟩
      · by_cases hbackslash : b = Byte.backslash
        · exact .inr (.inr ⟨.escape, done, fun text => by
            simp only [scan, if_neg hquote, if_pos hbackslash]⟩)
        · by_cases hcontrol : b < Byte.space
          · exact .inr (.inl ⟨.controlCharacter, fun text => by
              simp only [scan, if_neg hquote, if_neg hbackslash, if_pos hcontrol]⟩)
          · exact .inr (.inr ⟨.plain, b :: done, fun text => by
              simp only [scan, if_neg hquote, if_neg hbackslash, if_neg hcontrol]⟩)
  | escape =>
      by_cases hhex : b = Byte.smallU
      · exact .inr (.inr ⟨.hex none [], done, fun text => by simp only [scan, if_pos hhex]⟩)
      · cases hbyte : escapedByte? b with
        | some byte =>
            exact .inr (.inr ⟨.plain, byte :: done, fun text => by
              simp only [scan, if_neg hhex, hbyte]⟩)
        | none =>
            exact .inr (.inl ⟨.invalidEscape, fun text => by simp only [scan, if_neg hhex, hbyte]⟩)
  | hex lead digits =>
      by_cases hshort : digits.length < 3
      · exact .inr (.inr ⟨.hex lead (b :: digits), done, fun text => by
          simp only [scan, if_pos hshort]⟩)
      · cases hunit : unitOf lead (b :: digits).reverse with
        | char code =>
            exact .inr (.inr ⟨.plain, (encode code).reverse ++ done, fun text => by
              simp only [scan, if_neg hshort, hunit]⟩)
        | lead code =>
            exact .inr (.inr ⟨.pair code, done, fun text => by
              simp only [scan, if_neg hshort, hunit]⟩)
        | refused reason =>
            exact .inr (.inl ⟨reason, fun text => by simp only [scan, if_neg hshort, hunit]⟩)
  | pair lead =>
      by_cases hbackslash : b = Byte.backslash
      · exact .inr (.inr ⟨.pairEscape lead, done, fun text => by
          simp only [scan, if_pos hbackslash]⟩)
      · exact .inr (.inl ⟨.unfinishedHexEscape, fun text => by
          simp only [scan, if_neg hbackslash]⟩)
  | pairEscape lead =>
      by_cases hhex : b = Byte.smallU
      · exact .inr (.inr ⟨.hex (some lead) [], done, fun text => by
          simp only [scan, if_pos hhex]⟩)
      · exact .inr (.inl ⟨.unfinishedHexEscape, fun text => by simp only [scan, if_neg hhex]⟩)

/-- A literal ends with its closing quote, and nothing beyond is looked at. -/
theorem scan_takes (h : scan mode done text = .ok (content, rest)) :
    ∃ front, text = front ++ Byte.quote :: rest ∧
      ∀ rest', scan mode done (front ++ Byte.quote :: rest') = .ok (content, rest') := by
  induction text generalizing mode done with
  | nil =>
      cases h
  | cons b text ih =>
      rcases scan_cons_cases mode done b with
        ⟨rfl, hends⟩ | ⟨reason, hstops⟩ | ⟨mode', done', hgoes⟩
      · rw [hends] at h
        cases h
        exact ⟨[], rfl, hends⟩
      · rw [hstops] at h
        cases h
      · rw [hgoes] at h
        obtain ⟨front, rfl, hagain⟩ := ih h
        exact ⟨b :: front, rfl, fun rest' => (hgoes _).trans (hagain rest')⟩

theorem read_takes {literal : String} (h : read text = .ok (literal, rest)) :
    ∃ front, text = front ++ rest ∧ front ≠ [] ∧ EndsVisible front ∧
      ∀ rest', read (front ++ rest') = .ok (literal, rest') := by
  unfold read at h
  cases hscan : scan .plain [] text with
  | error stop =>
      rw [hscan] at h
      cases h
  | ok scanned =>
      obtain ⟨content, rest₁⟩ := scanned
      rw [hscan] at h
      simp only at h
      split at h
      · rename_i hdecode
        cases h
        obtain ⟨front, rfl, hagain⟩ := scan_takes hscan
        refine ⟨front ++ [Byte.quote], by simp, by simp,
          (endsVisible_singleton (by decide)).of_right (by simp), fun rest' => ?_⟩
        rw [List.append_assoc, List.singleton_append, read, hagain]
        simp only [hdecode]
      · cases h

end StringLiteral

end Json
end DocScript
