import DocScript.Proofs.LiteralFronts

/-!
# What a document takes up

A document that is read takes up a front part of the text, as a literal does: what follows can
be replaced by something that starts alike, by white space, or by nothing at all. What is taken
up neither starts nor ends with a blank, but for white space before the document.

That the reader of lists and objects counts its rounds is no part of this, and is dealt with
first: `Elements` says without rounds what such a reading goes through, and `Spells` says it
of a document. That there are rounds enough follows from how much is taken up, so both are
proved together, by induction on how deep documents may be nested.

**Results.**
* `ElementLoop.eq_ok_iff`: when the elements of a list or an object are read.
* `Elements.takes`: the front part that they take up.
* `value_eq_ok_iff`: when a document is read.
* `exists_of_value`: the front part that a document takes up.
-/

namespace DocScript
namespace Json

section Spaces

variable {b : UInt8} {spaces text tail : Bytes}

theorem skipSpace_append (hspaces : IsSpaces spaces) (text : Bytes) :
    skipSpace (spaces ++ text) = skipSpace text :=
  List.dropWhile_append_of_pos hspaces

theorem skipSpace_of_isVisible (h : IsVisible b) (tail : Bytes) :
    skipSpace (b :: tail) = b :: tail := by
  refine List.dropWhile_cons_of_neg ?_
  rw [isSpace_iff]
  have := h.1
  omega

/-- Spaces in front of a value are passed by, whatever follows it. -/
theorem exists_of_skipSpace (h : skipSpace text = b :: tail) :
    ∃ spaces, text = spaces ++ b :: tail ∧ IsSpaces spaces ∧
      ∀ tail', skipSpace (spaces ++ b :: tail') = b :: tail' := by
  obtain ⟨spaces, htext, hspaces⟩ := exists_dropWhile isSpace text
  rw [skipSpace] at h
  rw [h] at htext
  have hb : isSpace b = false := halts_dropWhile isSpace text b (by rw [h]; rfl)
  refine ⟨spaces, htext, hspaces, fun tail' => ?_⟩
  rw [skipSpace_append hspaces, skipSpace, List.dropWhile_cons_of_neg (by simp [hb])]

end Spaces

/-- Where an element of a list or an object starts, after a comma unless it is the first. -/
def elementStart (first : Bool) (text : Bytes) : Option Bytes :=
  if first then some (skipSpace text)
  else
    match skipSpace text with
    | [] => none
    | b :: rest => if b = Byte.comma then some (skipSpace rest) else none

/--
The elements of a list or an object, after its opening bracket and up to the closing one;
`first` tells whether none has been read yet.
-/
inductive Elements {α : Type} (closing : UInt8) (reads : Bytes → α → Bytes → Prop) :
    Bool → Bytes → List α → Bytes → Prop
  | close
      {first : Bool} {text rest : Bytes}
      (h : skipSpace text = closing :: rest) :
      Elements closing reads first text [] rest
  | cons
      {first : Bool} {b : UInt8} {text tail rest₁ rest : Bytes} {item : α} {items : List α}
      (hstart : elementStart first text = some (b :: tail))
      (hb : b ≠ closing)
      (hitem : reads (b :: tail) item rest₁)
      (hitems : Elements closing reads false rest₁ items rest) :
      Elements closing reads first text (item :: items) rest

section Elements

variable {α : Type} {closing b : UInt8} {first : Bool} {text tail rest : Bytes} {items : List α}
variable {rounds : Nat} {reads : Bytes → α → Bytes → Prop}
variable {loop : Nat → Bool → Bytes → Except Stop (List α × Bytes)}

/-- A loop over elements, each of which takes a round. -/
structure ElementLoop (closing : UInt8) (reads : Bytes → α → Bytes → Prop)
    (loop : Nat → Bool → Bytes → Except Stop (List α × Bytes)) : Prop where
  zero {first : Bool} {text : Bytes} {result : List α × Bytes} : loop 0 first text ≠ .ok result
  succ {rounds : Nat} {first : Bool} {text rest : Bytes} {items : List α} :
    loop (rounds + 1) first text = .ok (items, rest) ↔
      (skipSpace text = closing :: rest ∧ items = []) ∨
      ∃ b tail item items' rest₁, elementStart first text = some (b :: tail) ∧ b ≠ closing ∧
        reads (b :: tail) item rest₁ ∧ loop rounds false rest₁ = .ok (items', rest) ∧
        items = item :: items'

/-- A loop over elements gives a result if there are elements up to the end, and rounds enough. -/
theorem ElementLoop.eq_ok_iff (h : ElementLoop closing reads loop) :
    loop rounds first text = .ok (items, rest) ↔
      Elements closing reads first text items rest ∧ items.length < rounds := by
  induction rounds generalizing first text items with
  | zero =>
      exact ⟨fun hloop => absurd hloop h.zero,
        fun helements => absurd helements.2 (Nat.not_lt_zero _)⟩
  | succ rounds ih =>
      rw [h.succ]
      constructor
      · rintro (⟨hclose, rfl⟩ | ⟨b, tail, item, items', rest₁, hstart, hb, hitem, hloop, rfl⟩)
        · exact ⟨.close hclose, Nat.succ_pos _⟩
        · obtain ⟨helements, hlt⟩ := ih.mp hloop
          exact ⟨.cons hstart hb hitem helements, Nat.succ_lt_succ hlt⟩
      · rintro ⟨helements, hlt⟩
        cases helements with
        | close hclose =>
            exact .inl ⟨hclose, rfl⟩
        | cons hstart hb hitem hitems =>
            have hloop := ih.mpr ⟨hitems, Nat.lt_of_succ_lt_succ hlt⟩
            exact .inr ⟨_, _, _, _, _, hstart, hb, hitem, hloop, rfl⟩

/-- Reads an element, and then those after it. -/
def readCons (item : Bytes → Except Stop (α × Bytes))
    (others : Bytes → Except Stop (List α × Bytes)) (text : Bytes) :
    Except Stop (List α × Bytes) :=
  match item text with
  | .error stop => .error stop
  | .ok (head, rest) =>
      match others rest with
      | .error stop => .error stop
      | .ok (tail, rest) => .ok (head :: tail, rest)

theorem readCons_eq_ok_iff {item : Bytes → Except Stop (α × Bytes)}
    {others : Bytes → Except Stop (List α × Bytes)} :
    readCons item others text = .ok (items, rest) ↔
      ∃ head tail rest₁, item text = .ok (head, rest₁) ∧ others rest₁ = .ok (tail, rest) ∧
        items = head :: tail := by
  unfold readCons
  cases item text with
  | error stop =>
      simp
  | ok read =>
      obtain ⟨head, rest₁⟩ := read
      cases hothers : others rest₁ <;> grind

theorem listItems_succ (item : Bytes → Except Stop (α × Bytes)) :
    listItems item (rounds + 1) first text =
      match skipSpace text with
      | [] => .error ⟨.eofInList, 0⟩
      | b :: rest =>
          if b = Byte.closeList then .ok ([], rest)
          else if first then readCons item (listItems item rounds false) (b :: rest)
          else if b = Byte.comma then
            match skipSpace rest with
            | [] => .error ⟨.eofInValue, 0⟩
            | c :: beyond =>
                if c = Byte.closeList then .error ⟨.trailingComma, beyond.length⟩
                else readCons item (listItems item rounds false) (c :: beyond)
          else .error ⟨.expectedCommaOrListEnd, rest.length⟩ :=
  rfl

theorem listItems_elementLoop (item : Bytes → Except Stop (α × Bytes)) :
    ElementLoop Byte.closeList (fun text result rest => item text = .ok (result, rest))
      (listItems item) where
  zero h := by
    cases h
  succ {rounds first text rest items} := by
    rw [listItems_succ, elementStart]
    cases skipSpace text with
    | nil =>
        cases first <;> simp
    | cons b tail =>
        have hcomma : Byte.comma ≠ Byte.closeList := by decide
        cases first with
        | true =>
            split <;> grind [readCons_eq_ok_iff]
        | false =>
            cases hstart : skipSpace tail <;> grind [readCons_eq_ok_iff]

theorem objectMembers_succ (entry : Bytes → Except Stop (α × Bytes)) :
    objectMembers entry (rounds + 1) first text =
      match skipSpace text with
      | [] => .error ⟨.eofInObject, 0⟩
      | b :: rest =>
          if b = Byte.closeObject then .ok ([], rest)
          else if first then
            if b = Byte.quote then readCons entry (objectMembers entry rounds false) rest
            else .error ⟨.keyNotString, rest.length⟩
          else if b = Byte.comma then
            match skipSpace rest with
            | [] => .error ⟨.eofInValue, 0⟩
            | c :: beyond =>
                if c = Byte.quote then readCons entry (objectMembers entry rounds false) beyond
                else if c = Byte.closeObject then .error ⟨.trailingComma, beyond.length⟩
                else .error ⟨.keyNotString, beyond.length⟩
          else .error ⟨.expectedCommaOrObjectEnd, rest.length⟩ :=
  rfl

theorem objectMembers_elementLoop (entry : Bytes → Except Stop (α × Bytes)) :
    ElementLoop Byte.closeObject
      (fun text result rest => ∃ tail, text = Byte.quote :: tail ∧ entry tail = .ok (result, rest))
      (objectMembers entry) where
  zero h := by
    cases h
  succ {rounds first text rest items} := by
    rw [objectMembers_succ, elementStart]
    have hcomma : Byte.comma ≠ Byte.closeObject := by decide
    have hquote : Byte.quote ≠ Byte.closeObject := by decide
    cases skipSpace text with
    | nil =>
        cases first <;> simp
    | cons b tail =>
        cases first with
        | true =>
            split <;> grind [readCons_eq_ok_iff]
        | false =>
            cases hstart : skipSpace tail <;> grind [readCons_eq_ok_iff]

theorem elementStart_takes (h : elementStart first text = some (b :: tail)) :
    ∃ lead, text = lead ++ b :: tail ∧
      ∀ tail', elementStart first (lead ++ b :: tail') = some (b :: tail') := by
  unfold elementStart at h ⊢
  cases first with
  | true =>
      obtain ⟨lead, rfl, -, hagain⟩ := exists_of_skipSpace (Option.some.inj h)
      exact ⟨lead, rfl, fun tail' => congrArg some (hagain tail')⟩
  | false =>
      cases hskip : skipSpace text with
      | nil =>
          simp [hskip] at h
      | cons c beyond =>
          obtain ⟨rfl, hstart⟩ : c = Byte.comma ∧ skipSpace beyond = b :: tail := by
            simpa [hskip] using h
          obtain ⟨lead, rfl, -, hagain⟩ := exists_of_skipSpace hskip
          obtain ⟨lead', rfl, -, hagain'⟩ := exists_of_skipSpace hstart
          refine ⟨lead ++ Byte.comma :: lead', by simp, fun tail' => ?_⟩
          rw [List.append_assoc, List.cons_append, hagain]
          simp [hagain']

/-- Elements up to a closing bracket, of which nothing beyond is looked at. -/
theorem Elements.takes (h : Elements closing reads first text items rest)
    (hclosing : IsVisible closing) (hreads : Fronted reads) :
    ∃ front, text = front ++ rest ∧ items.length < front.length ∧ EndsVisible front ∧
      ∀ rest', Elements closing reads first (front ++ rest') items rest' := by
  induction h with
  | close hclose =>
      obtain ⟨lead, rfl, -, hagain⟩ := exists_of_skipSpace hclose
      refine ⟨lead ++ [closing], by simp, by simp,
        (endsVisible_singleton hclosing).of_right (by simp), fun rest' => .close ?_⟩
      rw [List.append_assoc, List.singleton_append, hagain]
  | @cons first b text tail rest₁ rest item items hstart hb hitem hitems ih =>
      obtain ⟨front, rfl, hlength, hvisible, hagain⟩ := ih
      obtain ⟨itemFront, htail, hsome, htakes⟩ := hreads hitem
      obtain ⟨lead, rfl, hlead⟩ := elementStart_takes hstart
      have hne : front ≠ [] := List.ne_nil_of_length_pos (Nat.zero_lt_of_lt hlength)
      obtain ⟨c, itemFront, rfl⟩ := List.exists_cons_of_ne_nil hsome
      obtain ⟨rfl, rfl⟩ := List.cons.inj (htail.trans (List.cons_append ..))
      refine ⟨lead ++ (b :: itemFront ++ front), by simp, ?_, (hvisible.of_right hne).of_right
        (by simp), fun rest' => ?_⟩
      · simp only [List.length_append, List.length_cons]
        omega
      · -- After the element comes a comma or the closing bracket, now as before.
        have hitem' := htakes.again (replaces_of_ne_nil hne _ rest')
        rw [List.append_assoc, List.append_assoc, List.cons_append]
        exact .cons (hlead _) hb hitem' (hagain rest')

end Elements

/-- A word is read when the text starts with it. -/
theorem ident_eq_ok_iff {letters text rest : Bytes} :
    ident letters text = .ok rest ↔ text = letters ++ rest := by
  induction letters generalizing text with
  | nil =>
      simp [ident]
  | cons letter letters ih =>
      cases text with
      | nil =>
          simp [ident]
      | cons b text =>
          by_cases hb : b = letter
          · simp [ident, hb, ih]
          · simp [ident, hb]

section Members

variable {α : Type} {item : Bytes → Except Stop (α × Bytes)} {text rest : Bytes} {name : String}
variable {element : α}

/-- A member is a name, a colon and a value. -/
theorem member_eq_ok_iff :
    member item text = .ok ((name, element), rest) ↔
      ∃ rest₁ rest₂, StringLiteral.read text = .ok (name, rest₁) ∧
        skipSpace rest₁ = Byte.colon :: rest₂ ∧ item rest₂ = .ok (element, rest) := by
  unfold member colon
  cases StringLiteral.read text with
  | error stop =>
      simp
  | ok read =>
      obtain ⟨name', rest₁⟩ := read
      cases hcolon : skipSpace rest₁ with
      | nil =>
          simp [hcolon]
      | cons b rest₂ =>
          by_cases hb : b = Byte.colon
          · subst hb
            cases hitem : item rest₂ <;> grind
          · grind

/-- A member of an object takes up its name and its value. -/
theorem member_takes (hitem : Fronted fun text element rest => item text = .ok (element, rest)) :
    Fronted fun text result rest =>
      ∃ tail, text = Byte.quote :: tail ∧ member item tail = .ok (result, rest) := by
  rintro text ⟨name, element⟩ rest ⟨tail, rfl, h⟩
  obtain ⟨rest₁, rest₂, hname, hcolon, hvalue⟩ := member_eq_ok_iff.mp h
  obtain ⟨front, rfl, hsome, htakes⟩ := hitem hvalue
  obtain ⟨lead, rfl, -, hlead⟩ := exists_of_skipSpace hcolon
  obtain ⟨literal, rfl, -, -, hliteral⟩ := StringLiteral.read_takes hname
  have hvisible : EndsVisible (Byte.quote :: literal ++ (lead ++ Byte.colon :: front)) := by
    refine EndsVisible.of_right ?_ (by simp)
    exact ((endsVisible_singleton (by decide)).append htakes.visible).of_right (by simp)
  refine ⟨Byte.quote :: literal ++ (lead ++ Byte.colon :: front), by simp, by simp, hvisible,
    fun {rest'} hrest => ⟨literal ++ (lead ++ Byte.colon :: (front ++ rest')), by simp, ?_⟩⟩
  exact member_eq_ok_iff.mpr ⟨_, _, hliteral _, hlead _, htakes.again hrest⟩

end Members

/-- How a document is spelled from its first byte on; what is inside it is read by `value`. -/
inductive Spells : Nat → Bytes → Json → Bytes → Prop
  | nullWord {depth : Nat} {rest : Bytes} :
      Spells depth (Byte.word ['n', 'u', 'l', 'l'] ++ rest) .null rest
  | trueWord {depth : Nat} {rest : Bytes} :
      Spells depth (Byte.word ['t', 'r', 'u', 'e'] ++ rest) (.bool true) rest
  | falseWord {depth : Nat} {rest : Bytes} :
      Spells depth (Byte.word ['f', 'a', 'l', 's', 'e'] ++ rest) (.bool false) rest
  | negative
      {depth : Nat} {text rest : Bytes} {number : Number}
      (h : Numeral.read true text = .ok (number, rest)) :
      Spells depth (Byte.minus :: text) (.number number) rest
  | numeral
      {depth : Nat} {b : UInt8} {text rest : Bytes} {number : Number}
      (hdigit : Numeral.isDigit b = true)
      (h : Numeral.read false (b :: text) = .ok (number, rest)) :
      Spells depth (b :: text) (.number number) rest
  | string
      {depth : Nat} {text rest : Bytes} {literal : String}
      (h : StringLiteral.read text = .ok (literal, rest)) :
      Spells depth (Byte.quote :: text) (.string literal) rest
  | array
      {depth : Nat} {text rest : Bytes} {items : List Json}
      (h : Elements Byte.closeList (fun text item rest => value depth text = .ok (item, rest))
        true text items rest) :
      Spells (depth + 1) (Byte.openList :: text) (.array items) rest
  | object
      {depth : Nat} {text rest : Bytes} {members : List (String × Json)}
      (h : Elements Byte.closeObject
        (fun text member rest => ∃ tail, text = Byte.quote :: tail ∧
          Json.member (value depth) tail = .ok (member, rest))
        true text members rest) :
      Spells (depth + 1) (Byte.openObject :: text) (.object (orderMembers members)) rest

section Values

variable {α β : Type} {depth : Nat} {text rest : Bytes} {document : Json}

theorem exists_of_map_eq_ok {f : α → β} {step : Except Stop α} {result : β}
    (h : step.map f = .ok result) : ∃ a, step = .ok a ∧ f a = result := by
  cases step with
  | error stop =>
      cases h
  | ok a =>
      exact ⟨a, rfl, Except.ok.inj h⟩

/-- What is read as a document is spelled as one. -/
theorem spells_of_value (h : value depth text = .ok (document, rest)) :
    Spells depth (skipSpace text) document rest := by
  rw [value.eq_def] at h
  split at h
  · cases h
  · rename_i b tail hskip
    rw [hskip]
    split_ifs at h with hnull htrue hfalse hminus hdigit hquote hlist hobject
    · obtain ⟨rest₁, hident, heq⟩ := exists_of_map_eq_ok h
      cases heq
      rw [hnull, ident_eq_ok_iff.mp hident]
      exact .nullWord
    · obtain ⟨rest₁, hident, heq⟩ := exists_of_map_eq_ok h
      cases heq
      rw [htrue, ident_eq_ok_iff.mp hident]
      exact .trueWord
    · obtain ⟨rest₁, hident, heq⟩ := exists_of_map_eq_ok h
      cases heq
      rw [hfalse, ident_eq_ok_iff.mp hident]
      exact .falseWord
    · obtain ⟨⟨number, rest₁⟩, hnumber, heq⟩ := exists_of_map_eq_ok h
      cases heq
      rw [hminus]
      exact .negative hnumber
    · obtain ⟨⟨number, rest₁⟩, hnumber, heq⟩ := exists_of_map_eq_ok h
      cases heq
      exact .numeral hdigit hnumber
    · obtain ⟨⟨literal, rest₁⟩, hliteral, heq⟩ := exists_of_map_eq_ok h
      cases heq
      rw [hquote]
      exact .string hliteral
    · cases depth with
      | zero =>
          cases h
      | succ depth =>
          obtain ⟨⟨items, rest₁⟩, hitems, heq⟩ := exists_of_map_eq_ok h
          cases heq
          rw [hlist]
          exact .array ((listItems_elementLoop _).eq_ok_iff.mp hitems).1
    · cases depth with
      | zero =>
          cases h
      | succ depth =>
          obtain ⟨⟨members, rest₁⟩, hmembers, heq⟩ := exists_of_map_eq_ok h
          cases heq
          rw [hobject]
          exact .object ((objectMembers_elementLoop _).eq_ok_iff.mp hmembers).1

/-- There are rounds enough for the elements of a list or an object. -/
theorem Spells.value_eq (h : Spells depth (skipSpace text) document rest)
    (hbelow : ∀ lower < depth,
      Fronted fun text document rest => value lower text = .ok (document, rest)) :
    value depth text = .ok (document, rest) := by
  have hlength : (skipSpace text).length ≤ text.length := (List.dropWhile_sublist _).length_le
  rw [value.eq_def]
  generalize skipSpace text = start at h hlength
  cases h with
  | nullWord | trueWord | falseWord =>
      rfl
  | negative hnumber =>
      change (Numeral.read true _).map _ = _
      rw [hnumber]
      rfl
  | @numeral _ b tail _ _ hdigit hnumber =>
      have hrange := Numeral.isDigit_iff.mp hdigit
      have hne : ∀ c : UInt8, c.toNat < 48 ∨ 57 < c.toNat → b ≠ c := by
        rintro _ hc rfl
        omega
      simp only [if_neg (hne 'n'.toUInt8 (by decide)), if_neg (hne 't'.toUInt8 (by decide)),
        if_neg (hne 'f'.toUInt8 (by decide)), if_neg (hne Byte.minus (by decide)), if_pos hdigit,
        hnumber]
      rfl
  | string hliteral =>
      change (StringLiteral.read _).map _ = _
      rw [hliteral]
      rfl
  | @array lower tail _ items hitems =>
      -- Every item takes up a byte at least, and the closing bracket another.
      obtain ⟨front, rfl, hitem, -⟩ := hitems.takes (by decide) (hbelow lower (Nat.lt_succ_self _))
      have hrounds : items.length < text.length := by
        rw [List.length_cons, List.length_append] at hlength
        omega
      change (listItems (value lower) text.length true _).map _ = _
      rw [(listItems_elementLoop _).eq_ok_iff.mpr ⟨hitems, hrounds⟩]
      rfl
  | @object lower tail _ members hmembers =>
      obtain ⟨front, rfl, hmember, -⟩ :=
        hmembers.takes (by decide) (member_takes (hbelow lower (Nat.lt_succ_self _)))
      have hrounds : members.length < text.length := by
        rw [List.length_cons, List.length_append] at hlength
        omega
      change (objectMembers (member (value lower)) text.length true _).map _ = _
      rw [(objectMembers_elementLoop _).eq_ok_iff.mpr ⟨hmembers, hrounds⟩]
      rfl

/-- A document is spelled by a front part that starts and ends visibly. -/
theorem Spells.takes (h : Spells depth text document rest)
    (hbelow : ∀ lower < depth,
      Fronted fun text document rest => value lower text = .ok (document, rest)) :
    ∃ b front, text = b :: front ++ rest ∧ IsVisible b ∧
      Takes (Spells depth) document (b :: front) rest := by
  cases h with
  | nullWord =>
      exact ⟨_, _, rfl, by decide, by rintro b ⟨⟩; decide, fun _ => .nullWord⟩
  | trueWord =>
      exact ⟨_, _, rfl, by decide, by rintro b ⟨⟩; decide, fun _ => .trueWord⟩
  | falseWord =>
      exact ⟨_, _, rfl, by decide, by rintro b ⟨⟩; decide, fun _ => .falseWord⟩
  | negative hnumber =>
      obtain ⟨front, rfl, -, htakes⟩ := Numeral.read_takes true hnumber
      exact ⟨Byte.minus, front, rfl, by decide,
        (endsVisible_singleton (by decide)).append htakes.visible,
        fun hrest => .negative (htakes.again hrest)⟩
  | numeral hdigit hnumber =>
      obtain ⟨front, htext, hsome, htakes⟩ := Numeral.read_takes false hnumber
      obtain ⟨b, front, rfl⟩ := List.exists_cons_of_ne_nil hsome
      obtain ⟨rfl, rfl⟩ := List.cons.inj (htext.trans (List.cons_append ..))
      exact ⟨_, front, rfl, Numeral.isVisible_of_isDigit hdigit, htakes.visible,
        fun hrest => .numeral hdigit (htakes.again hrest)⟩
  | string hliteral =>
      obtain ⟨front, rfl, hsome, hvisible, hagain⟩ := StringLiteral.read_takes hliteral
      exact ⟨Byte.quote, front, rfl, by decide,
        (endsVisible_singleton (by decide)).append hvisible, fun _ => .string (hagain _)⟩
  | array hitems =>
      obtain ⟨front, rfl, hlength, hvisible, hagain⟩ :=
        hitems.takes (by decide) (hbelow _ (Nat.lt_succ_self _))
      exact ⟨Byte.openList, front, rfl, by decide,
        (endsVisible_singleton (by decide)).append hvisible, fun _ => .array (hagain _)⟩
  | object hmembers =>
      obtain ⟨front, rfl, hlength, hvisible, hagain⟩ :=
        hmembers.takes (by decide) (member_takes (hbelow _ (Nat.lt_succ_self _)))
      exact ⟨Byte.openObject, front, rfl, by decide,
        (endsVisible_singleton (by decide)).append hvisible, fun _ => .object (hagain _)⟩

/-- A document is read again whatever follows it. -/
theorem value_takes (depth : Nat) :
    Fronted fun text document rest => value depth text = .ok (document, rest) := by
  induction depth using Nat.strong_induction_on with
  | h depth ih =>
      intro text document rest h
      obtain ⟨b, front, htext, hvisible, htakes⟩ := (spells_of_value h).takes ih
      obtain ⟨lead, rfl, -, hlead⟩ := exists_of_skipSpace htext
      refine ⟨lead ++ b :: front, by simp, by simp, htakes.visible.of_right (by simp),
        fun {rest'} hrest => ?_⟩
      refine Spells.value_eq ?_ ih
      rw [List.append_assoc, List.cons_append, hlead]
      exact htakes.again hrest

/-- When a document is read. -/
theorem value_eq_ok_iff :
    value depth text = .ok (document, rest) ↔ Spells depth (skipSpace text) document rest :=
  ⟨spells_of_value, fun h => h.value_eq fun lower _ => value_takes lower⟩

/--
A document that is read starts after some white space. It is read again without it, or after
some other, and whatever replaces what follows.
-/
theorem exists_of_value (h : value depth text = .ok (document, rest)) :
    ∃ lead b front, text = lead ++ (b :: front ++ rest) ∧ IsSpaces lead ∧ IsVisible b ∧
      EndsVisible (b :: front) ∧
      ∀ spaces rest', IsSpaces spaces → Replaces rest rest' →
        value depth (spaces ++ (b :: front ++ rest')) = .ok (document, rest') := by
  obtain ⟨b, front, htext, hb, htakes⟩ :=
    (spells_of_value h).takes fun lower _ => value_takes lower
  obtain ⟨lead, rfl, hlead, -⟩ := exists_of_skipSpace htext
  refine ⟨lead, b, front, rfl, hlead, hb, htakes.visible, fun spaces rest' hspaces hrest => ?_⟩
  rw [value_eq_ok_iff, skipSpace_append hspaces, List.cons_append, skipSpace_of_isVisible hb]
  exact htakes.again hrest

end Values

end Json
end DocScript
