import DocScript.Proofs.LiteralFronts
import DocScript.Text.Quoted

/-!
# Texts that are read off their quoted forms

The quoted form of a text can be told from whatever follows it, and the text from its quoted
form. A character inside quotes starts with a backslash just if it is escaped; an escape is
known by the letter behind the backslash, and a code point ends with its closing brace. The
closing quote is the only one without a backslash before it.

**Results.**
* `Text.hexDigits_injective`: a code point is known from its digits.
* `Text.quoteChar_append_inj`: one character inside quotes.
* `Text.quoteChars_append_inj`: a text in quotes.
-/

namespace DocScript
namespace Text

section HexDigits

theorem exists_of_mem_hexDigits {n : Nat} {c : Char} (h : c ∈ hexDigits n) :
    ∃ d < 16, c = Nat.digitChar d := by
  unfold hexDigits at h
  induction n using Nat.strongRecOn with
  | ind n ih =>
      rw [Nat.toDigits_eq_if (by decide)] at h
      split at h
      · rename_i hlt
        exact ⟨n, hlt, List.mem_singleton.mp h⟩
      · rcases List.mem_append.mp h with hfront | hlast
        · exact ih (n / 16) (by omega) hfront
        · exact ⟨n % 16, by omega, List.mem_singleton.mp hlast⟩

theorem digitChar_injective : ∀ m < 16, ∀ n < 16, m.digitChar = n.digitChar → m = n := by
  decide

theorem hexDigits_injective {m n : Nat} (h : hexDigits m = hexDigits n) : m = n := by
  unfold hexDigits at h
  induction m using Nat.strongRecOn generalizing n with
  | ind m ih =>
      rw [Nat.toDigits_eq_if (by decide), Nat.toDigits_eq_if (n := n) (by decide)] at h
      split at h <;> split at h
      · rename_i hm hn
        exact digitChar_injective m hm n hn (List.singleton_inj.mp h)
      · have hlength := congrArg List.length h
        simp at hlength
      · have hlength := congrArg List.length h
        simp at hlength
      · obtain ⟨hfront, hlast⟩ := List.append_inj' h rfl
        have hdiv := ih (m / 16) (by omega) hfront
        have hmod := digitChar_injective (m % 16) (by omega) (n % 16) (by omega)
          (List.singleton_inj.mp hlast)
        omega

/-- The digits of a code point end with the brace behind them. -/
theorem hexDigits_append_inj {m n : Nat} {rest rest' : List Char}
    (h : hexDigits m ++ '}' :: rest = hexDigits n ++ '}' :: rest') : m = n ∧ rest = rest' := by
  have hkind (n : Nat) : ∀ c ∈ hexDigits n, (c != '}') = true := by
    intro c hc
    obtain ⟨d, hd, rfl⟩ := exists_of_mem_hexDigits hc
    clear hc
    revert d
    decide
  have hhalts (rest : List Char) : Halts (· != '}') ('}' :: rest) := by
    rintro c ⟨⟩
    rfl
  obtain ⟨hdigits, hrest⟩ := append_inj_of_halts (hkind m) (hkind n) (hhalts _) (hhalts _) h
  exact ⟨hexDigits_injective hdigits, (List.cons.inj hrest).2⟩

end HexDigits

section Characters

/-- The characters that have an escape of their own, with the letter it is known by. -/
def shortEscapes : List (Char × Char) :=
  [('"', '"'), ('\\', '\\'), ('\t', 't'), ('\n', 'n'), ('\r', 'r'), ('\x00', '0')]

/-- The ways in which a character stands inside quotes. -/
theorem quoteChar_cases (c : Char) :
    c ≠ '"' ∧ c ≠ '\\' ∧ quoteChar c = [c] ∨
    (∃ letter, (c, letter) ∈ shortEscapes ∧ quoteChar c = ['\\', letter]) ∨
    quoteChar c = '\\' :: 'u' :: '{' :: (hexDigits c.toNat ++ ['}']) := by
  by_cases hshort : c ∈ shortEscapes.map Prod.fst
  · obtain ⟨⟨c, letter⟩, hmem, rfl⟩ := List.mem_map.mp hshort
    have hall : ∀ entry ∈ shortEscapes, quoteChar entry.1 = ['\\', entry.2] := by
      decide
    exact .inr (.inl ⟨letter, hmem, hall _ hmem⟩)
  · have hzero : c.toNat ≠ 0 := by
      intro hzero
      have hnul : c = '\x00' := Char.toNat_inj.mp hzero
      exact hshort (by simp [hnul, shortEscapes])
    have hne : c ≠ '"' ∧ c ≠ '\\' ∧ c ≠ '\t' ∧ c ≠ '\n' ∧ c ≠ '\r' := by
      refine ⟨?_, ?_, ?_, ?_, ?_⟩ <;> rintro rfl <;> exact hshort (by decide)
    obtain ⟨hquote, hbackslash, htab, hline, hreturn⟩ := hne
    unfold quoteChar
    rw [if_neg hquote, if_neg hbackslash, if_neg htab, if_neg hline, if_neg hreturn, if_neg hzero]
    split
    · exact .inl ⟨hquote, hbackslash, rfl⟩
    · exact .inr (.inr rfl)

theorem quoteChar_append_ne_quote (c : Char) (rest rest' : List Char) :
    quoteChar c ++ rest ≠ '"' :: rest' := by
  rcases quoteChar_cases c with ⟨hquote, -, hc⟩ | ⟨letter, -, hc⟩ | hc <;> rw [hc]
  · exact fun h => hquote (List.cons.inj h).1
  · simp
  · simp

/-- A character is known from how it stands inside quotes, whatever follows. -/
theorem quoteChar_append_inj {c d : Char} {rest rest' : List Char}
    (h : quoteChar c ++ rest = quoteChar d ++ rest') : c = d ∧ rest = rest' := by
  have hletter : ∀ entry ∈ shortEscapes, entry.2 ≠ 'u' := by
    decide
  have hknown : ∀ entry ∈ shortEscapes, ∀ other ∈ shortEscapes,
      entry.2 = other.2 → entry.1 = other.1 := by
    decide
  rcases quoteChar_cases c with ⟨-, hbackslash, hc⟩ | ⟨letter, hmem, hc⟩ | hc
  · rcases quoteChar_cases d with ⟨-, -, hd⟩ | ⟨_, -, hd⟩ | hd <;> rw [hc, hd] at h
    · exact List.cons.inj h
    · exact absurd (List.cons.inj h).1 hbackslash
    · exact absurd (List.cons.inj h).1 hbackslash
  · rcases quoteChar_cases d with ⟨-, hbackslash, hd⟩ | ⟨other, hmem', hd⟩ | hd <;> rw [hc, hd] at h
    · exact absurd (List.cons.inj h).1.symm hbackslash
    · obtain ⟨hsame, hrest⟩ := List.cons.inj (List.cons.inj h).2
      exact ⟨hknown _ hmem _ hmem' hsame, hrest⟩
    · exact absurd (List.cons.inj (List.cons.inj h).2).1 (hletter _ hmem)
  · rcases quoteChar_cases d with ⟨-, hbackslash, hd⟩ | ⟨other, hmem', hd⟩ | hd <;> rw [hc, hd] at h
    · exact absurd (List.cons.inj h).1.symm hbackslash
    · exact absurd (List.cons.inj (List.cons.inj h).2).1.symm (hletter _ hmem')
    · simp only [List.cons_append, List.cons.injEq, true_and, List.append_assoc,
        List.nil_append] at h
      obtain ⟨hpoint, hrest⟩ := hexDigits_append_inj h
      exact ⟨Char.toNat_inj.mp hpoint, hrest⟩

end Characters

/-- A text is known from its quoted form, whatever follows. -/
theorem quoteChars_append_inj {text text' rest rest' : List Char}
    (h : quoteChars text ++ rest = quoteChars text' ++ rest') : text = text' ∧ rest = rest' := by
  have hinside :
      text.flatMap quoteChar ++ '"' :: rest = text'.flatMap quoteChar ++ '"' :: rest' := by
    simpa [quoteChars] using h
  clear h
  induction text generalizing text' with
  | nil =>
      cases text' with
      | nil =>
          exact ⟨rfl, (List.cons.inj hinside).2⟩
      | cons d text' =>
          rw [List.flatMap_cons, List.append_assoc] at hinside
          exact absurd hinside.symm (quoteChar_append_ne_quote d _ _)
  | cons c text ih =>
      cases text' with
      | nil =>
          rw [List.flatMap_cons, List.append_assoc] at hinside
          exact absurd hinside (quoteChar_append_ne_quote c _ _)
      | cons d text' =>
          rw [List.flatMap_cons, List.append_assoc, List.flatMap_cons, List.append_assoc] at hinside
          obtain ⟨rfl, hmore⟩ := quoteChar_append_inj hinside
          obtain ⟨rfl, hrest⟩ := ih hmore
          exact ⟨rfl, hrest⟩

end Text
end DocScript
