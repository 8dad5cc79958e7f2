import DocScript.Eval
import DocScript.Proofs.NumberText
import DocScript.Proofs.QuotedText
import DocScript.Proofs.Subtrees

/-!
# Lists and maps that are read off their texts

The text of a list or map is read from the left. The first character of a value inside tells of
what kind it is: a quote, a bracket, a brace, or a character of a word, which is a number, a
boolean or null. A word ends before the first character that is not one of a word, and a text in
quotes at its closing quote. Behind a part stands a comma or the closing bracket, so it is known
whether there are more.

Two values are left out. An undefined number is not equal to itself, and the name of a function
is not in quotes, so that it may look like anything. At the top a text is not in quotes either,
so only texts of lists and maps tell which value they belong to.

**Results.**
* `Value.nestedChars_eq_of_same`: values of the same shape have the same text.
* `Value.forall₂_of_intercalate`: parts are told from each other if each part is.
* `Value.readsOff_nestedChars`: the text of a value inside a list or map, whatever follows it.
* `container_text_faithful`: lists and maps have the same text just if they have the same shape.
-/

namespace DocScript
namespace Value

section Separated

/-- The characters of numbers, booleans and null. -/
def isWordChar (c : Char) : Bool :=
  c.isAlphanum || c == '.' || c == '-'

/-- Whatever follows them, texts tell what they are texts of, unless a word goes on. -/
def ReadsOff {α : Type} (write : α → List Char) (R : α → α → Prop) (a b : α) : Prop :=
  ∀ rest rest', Halts isWordChar rest → Halts isWordChar rest' →
    write a ++ rest = write b ++ rest' → R a b ∧ rest = rest'

variable {α : Type} {write : α → List Char} {R : α → α → Prop} {as bs : List α}
  {rest rest' : List Char} {close : Char}

theorem intercalate_cons_eq (sep front : List Char) (more : List (List Char)) :
    sep.intercalate (front :: more) = front ++ more.flatMap (sep ++ ·) := by
  induction more generalizing front with
  | nil =>
      simp
  | cons next more ih =>
      rw [List.intercalate_cons_cons, ih, List.flatMap_cons, List.append_assoc, List.append_assoc]

theorem halts_more (hclose : isWordChar close = false) (as : List α) (rest : List Char) :
    Halts isWordChar ((as.map write).flatMap (separator ++ ·) ++ close :: rest) := by
  cases as with
  | nil =>
      rintro c ⟨⟩
      exact hclose
  | cons a as =>
      rintro c ⟨⟩
      rfl

/-- A separator tells that there are more parts, and the closing bracket that there are none. -/
theorem forall₂_of_more (hclose : isWordChar close = false) (hseparator : close ≠ ',')
    (hread : ∀ a ∈ as, ∀ b ∈ bs, ReadsOff write R a b)
    (h : (as.map write).flatMap (separator ++ ·) ++ close :: rest =
      (bs.map write).flatMap (separator ++ ·) ++ close :: rest') :
    List.Forall₂ R as bs ∧ rest = rest' := by
  induction as generalizing bs with
  | nil =>
      cases bs with
      | nil =>
          exact ⟨.nil, (List.cons.inj h).2⟩
      | cons b bs =>
          exact absurd (List.cons.inj h).1 hseparator
  | cons a as ih =>
      cases bs with
      | nil =>
          exact absurd (List.cons.inj h).1.symm hseparator
      | cons b bs =>
          simp only [List.map_cons, List.flatMap_cons, List.append_assoc,
            List.append_cancel_left_eq] at h
          obtain ⟨hfirst, hmore⟩ := hread a List.mem_cons_self b List.mem_cons_self _ _
            (halts_more hclose as rest) (halts_more hclose bs rest') h
          obtain ⟨htail, hrest⟩ := ih
            (fun a ha b hb => hread a (List.mem_cons_of_mem _ ha) b (List.mem_cons_of_mem _ hb))
            hmore
          exact ⟨.cons hfirst htail, hrest⟩

/-- Parts between brackets are told from each other if each part is. -/
theorem forall₂_of_intercalate (hclose : isWordChar close = false) (hseparator : close ≠ ',')
    (hread : ∀ a ∈ as, ∀ b ∈ bs, ReadsOff write R a b)
    (hfront : ∀ a ∈ as ++ bs, ∀ more more', write a ++ more ≠ close :: more')
    (h : separator.intercalate (as.map write) ++ close :: rest =
      separator.intercalate (bs.map write) ++ close :: rest') :
    List.Forall₂ R as bs ∧ rest = rest' := by
  cases as with
  | nil =>
      cases bs with
      | nil =>
          exact ⟨.nil, (List.cons.inj h).2⟩
      | cons b bs =>
          rw [List.map_cons, intercalate_cons_eq, List.append_assoc] at h
          exact absurd h.symm (hfront b (by simp) _ _)
  | cons a as =>
      cases bs with
      | nil =>
          rw [List.map_cons, intercalate_cons_eq, List.append_assoc] at h
          exact absurd h (hfront a (by simp) _ _)
      | cons b bs =>
          refine forall₂_of_more hclose hseparator hread ?_
          simpa only [List.map_cons, intercalate_cons_eq, List.flatMap_cons, List.append_assoc,
            List.append_cancel_left_eq] using h

end Separated

section Shapes

/-- An entry of a map as text. -/
def entryText (entry : String × Value) : List Char :=
  Text.quoteChars entry.1.toList ++ ':' :: ' ' :: nestedChars entry.2

theorem itemChars_eq (items : List Value) :
    itemChars items = separator.intercalate (items.map nestedChars) := by
  induction items with
  | nil =>
      rfl
  | cons item rest ih =>
      cases rest with
      | nil =>
          simp [itemChars]
      | cons next rest =>
          rw [itemChars, ih]
          · simp [List.intercalate_cons_cons]
          · simp

theorem entryChars_eq (entries : List (String × Value)) :
    entryChars entries = separator.intercalate (entries.map entryText) := by
  induction entries with
  | nil =>
      rfl
  | cons entry rest ih =>
      cases rest with
      | nil =>
          simp [entryChars, entryText]
      | cons next rest =>
          rw [entryChars, ih]
          · simp [List.intercalate_cons_cons, entryText]
          · simp

theorem nestedChars_list (items : List Value) :
    nestedChars (.list items) = '[' :: (separator.intercalate (items.map nestedChars) ++ [']']) :=
  congrArg (fun inside => '[' :: (inside ++ [']'])) (itemChars_eq items)

theorem nestedChars_map (entries : List (String × Value)) :
    nestedChars (.map entries) = '{' :: (separator.intercalate (entries.map entryText) ++ ['}']) :=
  congrArg (fun inside => '{' :: (inside ++ ['}'])) (entryChars_eq entries)

theorem map_eq_of_forall₂ {α β : Type} {f : α → β} {R : α → α → Prop} {as bs : List α}
    (h : ∀ a ∈ as, ∀ b, R a b → f a = f b) (hall : List.Forall₂ R as bs) : as.map f = bs.map f := by
  induction hall with
  | nil =>
      rfl
  | cons hfirst _ ih =>
      rw [List.map_cons, List.map_cons, h _ List.mem_cons_self _ hfirst,
        ih fun a ha => h a (List.mem_cons_of_mem _ ha)]

/-- Values of the same shape have the same text. -/
theorem nestedChars_eq_of_same {a b : Value} (h : a.Same b) : nestedChars a = nestedChars b := by
  induction a using induction_on_children generalizing b with
  | step a ih =>
      rcases same_cases h with rfl | ⟨x, y, rfl, rfl, hxy⟩ | ⟨as, bs, rfl, rfl, hitems⟩ |
        ⟨as, bs, rfl, rfl, hentries⟩
      · rfl
      · exact Decimal.numberChars_eq_of_beq hxy
      · have hitem : ∀ a ∈ as, ∀ b, a.Same b → nestedChars a = nestedChars b := by
          intro a ha b hsame
          exact ih a ha hsame
        rw [nestedChars_list, nestedChars_list, map_eq_of_forall₂ hitem hitems]
      · have hentry : ∀ a ∈ as, ∀ b, SameEntry a b → entryText a = entryText b := by
          rintro a ha b ⟨hname, hsame⟩
          rw [entryText, entryText, hname, ih a.2 (List.mem_map_of_mem ha) hsame]
        rw [nestedChars_map, nestedChars_map, map_eq_of_forall₂ hentry hentries]

/-- The character that a value starts with inside a list or map, unless it is a word. -/
def opening? : Value → Option Char
  | .string _ => some '"'
  | .list _ => some '['
  | .map _ => some '{'
  | _ => none

/-- Values that are told by their texts. -/
def IsLegible (v : Value) : Prop :=
  v.type ≠ .function ∧ v.isUndefined = false

variable {v : Value}

/-- The values that are words but no numbers. -/
def constants : List Value :=
  [.null, .boolean false, .boolean true]

theorem word_cases (hlegible : v.IsLegible) (hword : v.opening? = none) :
    v ∈ constants ∨ ∃ x, v = .number x ∧ x.isNaN = false := by
  cases v with
  | null =>
      simp [constants]
  | boolean p =>
      cases p <;> simp [constants]
  | number x =>
      exact .inr ⟨x, rfl, hlegible.2⟩
  | string | list | map =>
      cases hword
  | function name =>
      exact absurd rfl hlegible.1

theorem isWordChar_of_isNumberChar {c : Char} (h : Decimal.isNumberChar c = true) :
    isWordChar c = true := by
  rcases Bool.or_eq_true_iff.mp h with hnumeral | hletter
  · simp only [Decimal.isNumeral, Bool.or_eq_true] at hnumeral
    simp only [isWordChar, Char.isAlphanum]
    grind
  · have hall : ['-', 'N', 'a', 'i', 'n', 'f'].all isWordChar = true := by
      decide
    exact List.all_eq_true.mp hall c (List.contains_iff_mem.mp hletter)

/-- A word is made of characters of words. -/
theorem isWordChar_of_mem (hlegible : v.IsLegible) (hword : v.opening? = none) {c : Char}
    (hc : c ∈ nestedChars v) : isWordChar c = true := by
  have hconstants : ∀ v ∈ constants, (nestedChars v).all isWordChar = true := by
    decide
  rcases word_cases hlegible hword with hconstant | ⟨x, rfl, -⟩
  · exact List.all_eq_true.mp (hconstants v hconstant) c hc
  · exact isWordChar_of_isNumberChar (Decimal.isNumberChar_of_mem hc)

theorem nestedChars_ne_nil (v : Value) : nestedChars v ≠ [] := by
  cases v with
  | boolean p =>
      cases p <;> exact List.cons_ne_nil _ _
  | number x =>
      exact Decimal.numberChars_ne_nil x
  | _ =>
      exact List.cons_ne_nil _ _

/-- The first character of a text tells what kind of value it belongs to. -/
theorem exists_front (hlegible : v.IsLegible) :
    ∃ c tail, nestedChars v = c :: tail ∧ v.opening? = if isWordChar c then none else some c := by
  cases hopening : v.opening? with
  | none =>
      obtain ⟨c, tail, hfront⟩ := List.exists_cons_of_ne_nil (nestedChars_ne_nil v)
      refine ⟨c, tail, hfront, ?_⟩
      rw [isWordChar_of_mem hlegible hopening (hfront ▸ List.mem_cons_self)]
      rfl
  | some c =>
      cases v <;> cases hopening <;> exact ⟨_, _, rfl, rfl⟩

end Shapes

section Reading

variable {a b v : Value} {rest rest' : List Char}

/-- The first character of a text tells which kind of value it is the text of. -/
theorem opening?_eq_of_nestedChars (ha : a.IsLegible) (hb : b.IsLegible)
    (h : nestedChars a ++ rest = nestedChars b ++ rest') : a.opening? = b.opening? := by
  obtain ⟨c, tail, hfront, hopening⟩ := exists_front ha
  obtain ⟨d, tail', hfront', hopening'⟩ := exists_front hb
  rw [hfront, hfront'] at h
  rw [hopening, hopening', (List.cons.inj h).1]

theorem nestedChars_append_ne (hlegible : v.IsLegible) : nestedChars v ++ rest ≠ ']' :: rest' := by
  intro h
  obtain ⟨c, tail, hfront, hopening⟩ := exists_front hlegible
  rw [hfront] at h
  rw [(List.cons.inj h).1] at hopening
  cases v <;> cases hopening

/-- Each of these words has a letter that no number has. -/
theorem numberChars_ne_of_mem_constants {x : Float} (hv : v ∈ constants) :
    Decimal.numberChars x ≠ nestedChars v := by
  have hletters : ∀ v ∈ constants, (nestedChars v).all Decimal.isNumberChar = false := by
    decide
  have hnumber : (Decimal.numberChars x).all Decimal.isNumberChar = true :=
    List.all_eq_true.mpr fun c => Decimal.isNumberChar_of_mem
  intro h
  rw [h, hletters v hv] at hnumber
  cases hnumber

/-- Words that are the same are those of values of the same shape. -/
theorem same_of_word (ha : a.IsLegible) (hb : b.IsLegible) (hword : a.opening? = none)
    (hword' : b.opening? = none) (h : nestedChars a = nestedChars b) : a.Same b := by
  have hconstants : ∀ a ∈ constants, ∀ b ∈ constants,
      nestedChars a = nestedChars b → a.same b = true := by
    decide
  rcases word_cases ha hword with hconstant | ⟨x, rfl, hx⟩
  · rcases word_cases hb hword' with hconstant' | ⟨y, rfl, -⟩
    · exact hconstants a hconstant b hconstant' h
    · exact absurd h.symm (numberChars_ne_of_mem_constants hconstant)
  · rcases word_cases hb hword' with hconstant' | ⟨y, rfl, hy⟩
    · exact absurd h (numberChars_ne_of_mem_constants hconstant')
    · exact (Decimal.numberChars_eq_iff hx hy).mp h

theorem readsOff_entryText {a b : String × Value} (h : ReadsOff nestedChars Same a.2 b.2) :
    ReadsOff entryText SameEntry a b := by
  intro rest rest' hrest hrest' htext
  simp only [entryText, List.append_assoc, List.cons_append] at htext
  obtain ⟨hname, hmore⟩ := Text.quoteChars_append_inj htext
  simp only [List.cons.injEq, true_and] at hmore
  obtain ⟨hsame, hafter⟩ := h rest rest' hrest hrest' hmore
  exact ⟨⟨String.toList_inj.mp hname, hsame⟩, hafter⟩

/-- Words and numbers end where no further character of a word follows. -/
theorem readsOff_word (ha : a.IsLegible) (hb : b.IsLegible) (hword : a.opening? = none)
    (hword' : b.opening? = none) : ReadsOff nestedChars Same a b := by
  intro rest rest' hrest hrest' h
  obtain ⟨htext, hafter⟩ := append_inj_of_halts
    (fun c => isWordChar_of_mem ha hword) (fun c => isWordChar_of_mem hb hword') hrest hrest' h
  exact ⟨same_of_word ha hb hword hword' htext, hafter⟩

theorem readsOff_string (s t : String) : ReadsOff nestedChars Same (.string s) (.string t) := by
  intro rest rest' _ _ h
  obtain ⟨htext, hafter⟩ := Text.quoteChars_append_inj h
  exact ⟨beq_iff_eq.mpr (String.toList_inj.mp htext), hafter⟩

/-- A list is read off item by item, up to the bracket that closes it. -/
theorem readsOff_list {as bs : List Value}
    (hread : ∀ a ∈ as, ∀ b ∈ bs, ReadsOff nestedChars Same a b)
    (hlegible : ∀ v ∈ as ++ bs, v.IsLegible) :
    ReadsOff nestedChars Same (.list as) (.list bs) := by
  intro rest rest' _ _ h
  simp only [nestedChars_list, List.cons_append, List.append_assoc, List.cons.injEq, true_and,
    List.nil_append] at h
  obtain ⟨hitems, hafter⟩ := forall₂_of_intercalate rfl (by decide) hread
    (fun v hv _ _ => nestedChars_append_ne (hlegible v hv)) h
  exact ⟨sameItems_iff.mpr hitems, hafter⟩

/-- A map is read off entry by entry, up to the brace that closes it. -/
theorem readsOff_map {as bs : List (String × Value)}
    (hread : ∀ a ∈ as, ∀ b ∈ bs, ReadsOff nestedChars Same a.2 b.2) :
    ReadsOff nestedChars Same (.map as) (.map bs) := by
  intro rest rest' _ _ h
  simp only [nestedChars_map, List.cons_append, List.append_assoc, List.cons.injEq, true_and,
    List.nil_append] at h
  -- An entry starts with the quote of its name, never with a brace.
  have hfront : ∀ entry ∈ as ++ bs, ∀ more more', entryText entry ++ more ≠ '}' :: more' := by
    rintro entry - more more' ⟨⟩
  obtain ⟨hentries, hafter⟩ := forall₂_of_intercalate rfl (by decide)
    (fun a ha b hb => readsOff_entryText (hread a ha b hb)) hfront h
  exact ⟨sameEntries_iff.mpr hentries, hafter⟩

/-- The text of a value inside a list or map tells its shape, whatever follows. -/
theorem readsOff_nestedChars (ha : Everywhere children IsLegible a)
    (hb : Everywhere children IsLegible b) : ReadsOff nestedChars Same a b := by
  induction a using induction_on_children generalizing b with
  | step a ih =>
      intro rest rest' hrest hrest' h
      -- The first character settles which kind of value both are.
      have hopening := opening?_eq_of_nestedChars ha.here hb.here h
      refine (?_ : ReadsOff nestedChars Same a b) rest rest' hrest hrest' h
      by_cases hword : a.opening? = none
      · exact readsOff_word ha.here hb.here hword (hopening ▸ hword)
      · cases a with
        | string s =>
            cases b <;> cases hopening
            exact readsOff_string s _
        | list as =>
            cases b <;> cases hopening
            refine readsOff_list ?_ ?_
            · intro a hmem b hmem'
              exact ih a hmem (ha.of_mem hmem) (hb.of_mem hmem')
            · intro v hv
              rcases List.mem_append.mp hv with hmem | hmem
              · exact (ha.of_mem hmem).here
              · exact (hb.of_mem hmem).here
        | map as =>
            cases b <;> cases hopening
            refine readsOff_map ?_
            intro a hmem b hmem'
            have hchild := List.mem_map_of_mem (f := Prod.snd) hmem
            have hchild' := List.mem_map_of_mem (f := Prod.snd) hmem'
            exact ih a.2 hchild (ha.of_mem hchild) (hb.of_mem hchild')
        | _ =>
            exact absurd rfl hword

end Reading

section Containers

/-- Lists and maps. -/
def IsContainer (v : Value) : Prop :=
  v.type = .list ∨ v.type = .map

variable {a b v : Value}

/-- Lists and maps have the same text at the top as inside others. -/
theorem chars_of_isContainer (h : v.IsContainer) : v.chars = nestedChars v := by
  cases v with
  | list | map =>
      rfl
  | _ =>
      rcases h with h | h <;> cases h

theorem text_ne_anyCase (h : v.IsContainer) : v.text ≠ Node.anyCase := by
  intro htext
  have hchars : v.chars = Node.anyCase.toList := by
    rw [← htext, text, String.toList_ofList]
  cases v with
  | list | map =>
      cases hchars
  | _ =>
      rcases h with h | h <;> cases h

/-- Containers have the same text just if they are the same value. -/
theorem text_eq_iff_same (ha : a.IsContainer) (hb : b.IsContainer)
    (halegible : Everywhere children IsLegible a) (hblegible : Everywhere children IsLegible b) :
    a.text = b.text ↔ a.same b = true := by
  rw [text, text, String.ofList_inj, chars_of_isContainer ha, chars_of_isContainer hb]
  constructor
  · intro h
    refine (readsOff_nestedChars halegible hblegible [] [] (halts_nil _) (halts_nil _) ?_).1
    rw [h]
  · exact nestedChars_eq_of_same

end Containers

end Value

theorem Eval.chooseCase_singleton_iff {v : Value} {name : String} {node : Node}
    (h : name ≠ Node.anyCase) : chooseCase v [(name, node)] = some node ↔ name = v.text := by
  by_cases hname : name = v.text <;> simp [chooseCase, Table.find, hname, h]

/--
The text of a list or map that holds neither functions nor undefined numbers, at any depth, is
faithful: two of them have the same text just if they have the same shape, where zero has no sign.
So the text that chooses the case of a `switch` tells which of them it is chosen by.
-/
theorem container_text_faithful {a b : Value} (ha : a.IsContainer) (hb : b.IsContainer)
    (halegible : Everywhere Value.children Value.IsLegible a)
    (hblegible : Everywhere Value.children Value.IsLegible b) :
    (a.text = b.text ↔ a.same b = true) ∧
    ∀ node : Node, Eval.chooseCase b [(a.text, node)] = some node ↔ a.same b = true := by
  have htext := Value.text_eq_iff_same ha hb halegible hblegible
  refine ⟨htext, fun node => ?_⟩
  rw [Eval.chooseCase_singleton_iff (Value.text_ne_anyCase ha), htext]

theorem container_text_faithful_quotedBrackets :
    (Value.map [("]", .list [.string "], [", .number 0])]).text =
      (Value.map [("]", .list [.string "], [", .number (-0)])]).text ∧
    (Value.map [("]", .list [.string "], [", .number 0])]).text ≠
      (Value.map [("]", .list [.string "]", .string "[", .number 0])]).text := by
  have hlegible (items : List Value) (hitems : ∀ v ∈ items, v.IsLegible ∧ v.children = []) :
      Everywhere Value.children Value.IsLegible (.map [("]", .list items)]) := by
    refine .intro ⟨nofun, rfl⟩ (List.forall_mem_singleton.mpr (.intro ⟨nofun, rfl⟩ ?_))
    exact fun v hv => .leaf (hitems v hv).1 (hitems v hv).2
  have hstring (s : String) : (Value.string s).IsLegible ∧ (Value.string s).children = [] :=
    ⟨⟨nofun, rfl⟩, rfl⟩
  have hzero : (Value.number 0).IsLegible ∧ (Value.number 0).children = [] :=
    ⟨⟨nofun, by decide⟩, rfl⟩
  have hminus : (Value.number (-0)).IsLegible ∧ (Value.number (-0)).children = [] :=
    ⟨⟨nofun, by decide⟩, rfl⟩
  have hsigns := container_text_faithful (.inr rfl) (.inr rfl)
    (hlegible [.string "], [", .number 0] (by simp [hstring, hzero]))
    (hlegible [.string "], [", .number (-0)] (by simp [hstring, hminus]))
  have hquotes := container_text_faithful (.inr rfl) (.inr rfl)
    (hlegible [.string "], [", .number 0] (by simp [hstring, hzero]))
    (hlegible [.string "]", .string "[", .number 0] (by simp [hstring, hzero]))
  exact ⟨hsigns.1.mpr rfl, mt hquotes.1.mp nofun⟩

end DocScript
