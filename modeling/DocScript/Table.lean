/-!
# Tables

A table binds names. It lists its bindings in the order in which the names were
first bound; binding a name again changes its value in place.
-/

namespace DocScript

/-- A table from names to values of some kind. -/
structure Table (α : Type) where
  entries : List (String × α) := []

namespace Table

section

variable {α : Type}

/-- The table without bindings. -/
def empty : Table α := ⟨[]⟩

instance : Inhabited (Table α) := ⟨empty⟩

/-- The value found first under a name. -/
def find (name : String) : List (String × α) → Option α
  | [] => none
  | (key, value) :: rest => if key = name then some value else find name rest

/-- Puts a value in the place of the one found first under a name, or at the end. -/
def put (name : String) (value : α) : List (String × α) → List (String × α)
  | [] => [(name, value)]
  | (key, old) :: rest =>
      if key = name then (key, value) :: rest else (key, old) :: put name value rest

/-- The value bound to a name. -/
def get? (table : Table α) (name : String) : Option α :=
  find name table.entries

/-- Whether a name is bound. -/
def contains (table : Table α) (name : String) : Bool :=
  (table.get? name).isSome

/-- Binds a name. -/
def insert (table : Table α) (name : String) (value : α) : Table α :=
  ⟨put name value table.entries⟩

/-- Binds several names, one after the other. -/
def insertAll (table : Table α) (bindings : List (String × α)) : Table α :=
  bindings.foldl (fun table (name, value) => table.insert name value) table

/-- Keeps the bindings whose value passes a test. -/
def filter (table : Table α) (keep : α → Bool) : Table α :=
  ⟨table.entries.filter fun (_, value) => keep value⟩

/-- How many names are bound. -/
def size (table : Table α) : Nat :=
  table.entries.length

/-- The bound names. -/
def names (table : Table α) : List String :=
  table.entries.map Prod.fst

/-- The bindings in increasing order of the names. -/
def sorted (table : Table α) : List (String × α) :=
  table.entries.mergeSort fun a b => decide (a.1 ≤ b.1)

@[simp] theorem get?_empty (name : String) : (empty : Table α).get? name = none := rfl

/-- What is found under a name is bound to it. -/
theorem mem_of_find {name : String} {value : α} {entries : List (String × α)}
    (h : find name entries = some value) : (name, value) ∈ entries := by
  induction entries with
  | nil => cases h
  | cons entry rest ih =>
      obtain ⟨key, old⟩ := entry
      rw [find] at h
      split at h
      · rename_i hkey
        cases h
        rw [hkey]
        exact List.mem_cons_self
      · exact List.mem_cons_of_mem _ (ih h)

/-- What holds of all values holds of them after one more is bound that it holds of. -/
theorem forall_insert {P : α → Prop} {table : Table α} {name : String} {value : α}
    (htable : ∀ entry ∈ table.entries, P entry.2) (hvalue : P value) :
    ∀ entry ∈ (table.insert name value).entries, P entry.2 := by
  obtain ⟨entries⟩ := table
  simp only [insert]
  induction entries with
  | nil => exact List.forall_mem_singleton.mpr hvalue
  | cons entry rest ih =>
      obtain ⟨hfirst, hrest⟩ := List.forall_mem_cons.mp htable
      rw [put]
      split
      · exact List.forall_mem_cons.mpr ⟨hvalue, hrest⟩
      · exact List.forall_mem_cons.mpr ⟨hfirst, ih hrest⟩

/-- A name just bound has its new value. -/
@[simp] theorem get?_insert_self (table : Table α) (name : String) (value : α) :
    (table.insert name value).get? name = some value := by
  obtain ⟨entries⟩ := table
  induction entries with
  | nil => simp [insert, get?, put, find]
  | cons entry rest ih =>
      obtain ⟨key, old⟩ := entry
      by_cases h : key = name
      · simp [insert, get?, put, find, h]
      · simpa [insert, get?, put, find, h] using ih

/-- Binding a name leaves all other names alone. -/
theorem get?_insert_of_ne (table : Table α) {name other : String} (value : α)
    (h : other ≠ name) : (table.insert name value).get? other = table.get? other := by
  obtain ⟨entries⟩ := table
  induction entries with
  | nil => simp [insert, get?, put, find, h.symm]
  | cons entry rest ih =>
      obtain ⟨key, old⟩ := entry
      by_cases hk : key = name
      · subst hk
        simp [insert, get?, put, find, h.symm]
      · by_cases ho : key = other
        · subst ho
          simp [insert, get?, put, find, hk]
        · simpa [insert, get?, put, find, hk, ho] using ih

/-- A name just bound is bound. -/
@[simp] theorem contains_insert_self (table : Table α) (name : String) (value : α) :
    (table.insert name value).contains name = true := by
  simp [contains]

/-- Binding a name unbinds no other. -/
theorem contains_insert_of_contains (table : Table α) {name other : String} (value : α)
    (h : table.contains other = true) : (table.insert name value).contains other = true := by
  by_cases heq : other = name
  · subst heq
    exact contains_insert_self table other value
  · unfold contains at h ⊢
    rw [get?_insert_of_ne table value heq]
    exact h

end

end Table
end DocScript
