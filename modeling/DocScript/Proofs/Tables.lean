import DocScript.Table
import Mathlib.Data.List.Nodup
import Mathlib.Logic.Function.Basic

/-!
# What tables bind

A table is known by what its names are bound to. This module says so for the operations on
tables: a look-up after an insertion, and after entries are added that are missing.
Insertions keep every name listed once. A table whose names are changed, no two of them to
the same, or whose values are changed, is looked up and added to as the table it came from.
-/

namespace DocScript
namespace Table

variable {α : Type}

/-- To bind a name changes what is found under this name, and nothing else. -/
theorem get?_insert (table : Table α) (name : String) (value : α) :
    (table.insert name value).get? = Function.update table.get? name (some value) := by
  funext other
  by_cases h : other = name
  · subst h
    rw [get?_insert_self, Function.update_self]
  · rw [get?_insert_of_ne table value h, Function.update_of_ne h]

/-- A name is bound if it was, or has just been. -/
theorem contains_insert_iff (table : Table α) (name other : String) (value : α) :
    (table.insert name value).contains other = true ↔
      other = name ∨ table.contains other = true := by
  unfold contains
  rw [get?_insert]
  by_cases h : other = name <;> simp [h]

/-- Entries are added under names that are not there yet. -/
theorem get?_addMissing (name : String) (entries : List (String × α)) (seen : Table α) :
    (entries.foldl
      (fun seen (entry : String × α) =>
        if seen.contains entry.1 then seen else seen.insert entry.1 entry.2)
      seen).get? name = (seen.get? name).or (find name entries) := by
  induction entries generalizing seen with
  | nil =>
      simp [find]
  | cons entry rest ih =>
      obtain ⟨key, value⟩ := entry
      rw [List.foldl_cons, ih, find]
      by_cases hkey : key = name
      · subst hkey
        cases hseen : seen.get? key <;> simp [contains, hseen]
      · rw [if_neg hkey]
        split
        · rfl
        · rw [get?_insert_of_ne seen value (Ne.symm hkey)]

/-- A name that is bound for the first time comes last. -/
theorem names_put (name : String) (value : α) (entries : List (String × α)) :
    (put name value entries).map Prod.fst =
      if name ∈ entries.map Prod.fst then entries.map Prod.fst
      else entries.map Prod.fst ++ [name] := by
  induction entries with
  | nil =>
      rfl
  | cons entry rest ih =>
      obtain ⟨key, old⟩ := entry
      rw [put]
      by_cases h : key = name
      · simp [h]
      · have hne : ¬ name = key := fun heq => h heq.symm
        rw [if_neg h, List.map_cons, ih]
        by_cases hmem : name ∈ rest.map Prod.fst <;> simp [hne, hmem]

/-- Insertions keep every name listed once. -/
theorem nodup_names_insert
    {table : Table α} (h : table.names.Nodup) (name : String) (value : α) :
    (table.insert name value).names.Nodup := by
  unfold names at h
  simp only [names, insert, names_put]
  split
  · exact h
  · rename_i hnew
    exact h.append (List.nodup_singleton name) (List.disjoint_singleton.mpr hnew)

theorem find_eq_none_of_notMem
    {name : String} {entries : List (String × α)} (h : name ∉ entries.map Prod.fst) :
    find name entries = none := by
  cases hfind : find name entries with
  | none =>
      rfl
  | some value =>
      exact absurd (List.mem_map_of_mem (mem_of_find hfind)) h

/-- What holds of all values holds of them after others are bound that it holds of. -/
theorem forall_insertAll
    {P : α → Prop} {table : Table α} {bindings : List (String × α)}
    (htable : ∀ entry ∈ table.entries, P entry.2) (hbindings : ∀ binding ∈ bindings, P binding.2) :
    ∀ entry ∈ (table.insertAll bindings).entries, P entry.2 := by
  induction bindings generalizing table with
  | nil =>
      exact htable
  | cons binding rest ih =>
      obtain ⟨hfirst, hrest⟩ := List.forall_mem_cons.mp hbindings
      exact ih (forall_insert htable hfirst) hrest

section Maps

variable {β : Type}

/-- The same values under other names. -/
def mapNames (rename : String → String) (table : Table α) : Table α :=
  ⟨table.entries.map (Prod.map rename id)⟩

/-- Other values under the same names. -/
def mapValues (f : α → β) (table : Table α) : Table β :=
  ⟨table.entries.map (Prod.map id f)⟩

variable {rename : String → String} (hrename : Function.Injective rename)

include hrename in
/-- Under other names the same is found, if no two names become one. -/
theorem find_map_name (name : String) (entries : List (String × α)) :
    find (rename name) (entries.map (Prod.map rename id)) = find name entries := by
  induction entries with
  | nil =>
      rfl
  | cons entry rest ih =>
      simp only [List.map_cons, Prod.map, find, hrename.eq_iff, ih, id]

include hrename in
theorem put_map_name (name : String) (value : α) (entries : List (String × α)) :
    put (rename name) value (entries.map (Prod.map rename id)) =
      (put name value entries).map (Prod.map rename id) := by
  induction entries with
  | nil =>
      rfl
  | cons entry rest ih =>
      simp only [List.map_cons, Prod.map, put, hrename.eq_iff, ih]
      split <;> rfl

theorem find_map_value (f : α → β) (name : String) (entries : List (String × α)) :
    find name (entries.map (Prod.map id f)) = (find name entries).map f := by
  induction entries with
  | nil =>
      rfl
  | cons entry rest ih =>
      simp only [List.map_cons, Prod.map, find, ih, id]
      split <;> rfl

theorem put_map_value (f : α → β) (name : String) (value : α) (entries : List (String × α)) :
    put name (f value) (entries.map (Prod.map id f)) =
      (put name value entries).map (Prod.map id f) := by
  induction entries with
  | nil =>
      rfl
  | cons entry rest ih =>
      simp only [List.map_cons, Prod.map, put, ih, id]
      split <;> rfl

include hrename in
theorem contains_mapNames (table : Table α) (name : String) :
    (table.mapNames rename).contains (rename name) = table.contains name :=
  congrArg Option.isSome (find_map_name hrename name table.entries)

include hrename in
/-- To bind a name and then rename all is to rename all and then bind the other name. -/
theorem insert_mapNames (table : Table α) (name : String) (value : α) :
    (table.mapNames rename).insert (rename name) value =
      (table.insert name value).mapNames rename :=
  congrArg Table.mk (put_map_name hrename name value table.entries)

include hrename in
theorem insertAll_mapNames (table : Table α) (bindings : List (String × α)) :
    (table.mapNames rename).insertAll (bindings.map (Prod.map rename id)) =
      (table.insertAll bindings).mapNames rename := by
  induction bindings generalizing table with
  | nil =>
      rfl
  | cons binding rest ih =>
      have hrest := ih (table.insert binding.1 binding.2)
      rw [← insert_mapNames hrename] at hrest
      exact hrest

end Maps

end Table
end DocScript
