import DocScript.Proofs.ReadTrees
import DocScript.Proofs.Simulation
import DocScript.Proofs.Tables

/-!
# References to functions

A value refers to functions by name, at any depth within lists and maps. Literals and
documents refer to none, and operations pass on what their operands refer to. What a value
refers to is *known* in a table if the table has a function of each of these names. As
evaluation removes no function, what is known stays known.

**Results.**
* `Value.not_refers_ofJson`: a document stands for a value without references.
* `Operator.refers_of_fold`: an operation makes no references up.
* `Scopes.Hold`: what holds of all values in frames, and the operations that keep it.
* `Simulation.growing`, `evaluation_extends`: evaluation removes no function and no unit.
-/

namespace DocScript

section Values

/-- A value is a reference to a function, or holds one. -/
inductive Value.Refers : Value → String → Prop
  | here (name : String) : Refers (.function name) name
  | item {items : List Value} {item : Value} {name : String}
      (hmem : item ∈ items) (h : Refers item name) : Refers (.list items) name
  | entry {entries : List (String × Value)} {entry : String × Value} {name : String}
      (hmem : entry ∈ entries) (h : Refers entry.2 name) : Refers (.map entries) name

variable {name : String}

theorem Value.refers_list_iff {items : List Value} :
    (Value.list items).Refers name ↔ ∃ item ∈ items, item.Refers name := by
  constructor
  · rintro (_ | ⟨hmem, h⟩)
    exact ⟨_, hmem, h⟩
  · rintro ⟨item, hmem, h⟩
    exact .item hmem h

/-- No scalar refers to a function. -/
theorem Value.not_refers_of_isScalar
    {value : Value} {test : Float → Prop} (hscalar : value.IsScalar test) :
    ¬ value.Refers name := by
  rintro (_ | _ | _) <;> exact hscalar

/-- A value in a list of a document stands for an item of it. -/
theorem Value.exists_of_mem_ofItems {items : List Json} {value : Value}
    (hmem : value ∈ Value.ofItems items) : ∃ item ∈ items, value = Value.ofJson item := by
  induction items with
  | nil =>
      cases hmem
  | cons item rest ih =>
      rcases List.mem_cons.mp hmem with rfl | hrest
      · exact ⟨item, List.mem_cons_self, rfl⟩
      · obtain ⟨found, hfound, heq⟩ := ih hrest
        exact ⟨found, List.mem_cons_of_mem item hfound, heq⟩

theorem Value.exists_of_mem_ofMembers {members : List (String × Json)} {entry : String × Value}
    (hmem : entry ∈ Value.ofMembers members) :
    ∃ member ∈ members, entry.2 = Value.ofJson member.2 := by
  induction members with
  | nil =>
      cases hmem
  | cons member rest ih =>
      rcases List.mem_cons.mp hmem with rfl | hrest
      · exact ⟨member, List.mem_cons_self, rfl⟩
      · obtain ⟨found, hfound, heq⟩ := ih hrest
        exact ⟨found, List.mem_cons_of_mem member hfound, heq⟩

/-- A document stands for a value that refers to no function. -/
theorem Value.not_refers_ofJson (document : Json) : ¬ (Value.ofJson document).Refers name := by
  induction document using Json.induction_on_size with
  | step document ih =>
      intro hrefers
      cases document with
      | array items =>
          obtain ⟨value, hmem, h⟩ := Value.refers_list_iff.mp hrefers
          obtain ⟨item, hitem, rfl⟩ := Value.exists_of_mem_ofItems hmem
          exact ih item (Json.sizeOf_lt_array hitem) h
      | object members =>
          cases hrefers with
          | entry hmem h =>
              obtain ⟨member, hmember, heq⟩ := Value.exists_of_mem_ofMembers hmem
              rw [heq] at h
              exact ih member.2 (Json.sizeOf_lt_object hmember) h
      | _ =>
          cases hrefers

/-- An operation passes on references of its operands. -/
theorem Operator.refers_of_apply {op : Operator} {left right value : Value}
    (happly : op.apply left right = .ok value) (hrefers : value.Refers name) :
    left.Refers name ∨ right.Refers name := by
  cases op with
  | add =>
      simp only [Operator.apply] at happly
      split at happly
      · cases happly
        cases hrefers
      · cases happly
        cases hrefers
      · rename_i as bs
        cases happly
        obtain ⟨item, hmem, h⟩ := Value.refers_list_iff.mp hrefers
        rcases List.mem_append.mp hmem with hleft | hright
        · exact .inl (.item hleft h)
        · exact .inr (.item hright h)
      · cases happly
  | sub | mul | div | lt | gt =>
      simp only [Operator.apply] at happly
      split at happly
      · cases happly
        cases hrefers
      · cases happly
  | eq | ne | and | or =>
      cases happly
      cases hrefers

/-- What the value of an operation refers to, one of its operands does. -/
theorem Operator.refers_of_fold {op : Operator} {start value : Value} {operands : List Value}
    (hfold : op.fold start operands = .ok value) (hrefers : value.Refers name) :
    ∃ operand ∈ start :: operands, operand.Refers name := by
  induction operands generalizing start with
  | nil =>
      cases hfold
      exact ⟨_, List.mem_cons_self, hrefers⟩
  | cons operand rest ih =>
      rw [Operator.fold] at hfold
      split at hfold
      · rename_i combined happly
        obtain ⟨found, hmem, h⟩ := ih hfold
        rcases List.mem_cons.mp hmem with rfl | hrest
        · rcases Operator.refers_of_apply happly h with hleft | hright
          · exact ⟨start, by simp, hleft⟩
          · exact ⟨operand, by simp, hright⟩
        · exact ⟨found, by simp [hrest], h⟩
      · cases hfold

end Values

variable {H : Type}

section Known

variable {functions functions' : Table (Function H)} {value : Value}

/-- All functions that a value refers to are in a table. -/
def Value.KnownIn (functions : Table (Function H)) (value : Value) : Prop :=
  ∀ name, value.Refers name → functions.contains name = true

/-- All functions are known that the value of an outcome refers to. -/
def Outcome.KnownIn (functions : Table (Function H)) : Outcome → Prop
  | .value v => v.KnownIn functions
  | .returned v => v.KnownIn functions
  | .failed _ => True

theorem Value.knownIn_null : Value.null.KnownIn functions := by
  rintro name (_ | _)

theorem Value.KnownIn.list {items : List Value} (h : ∀ item ∈ items, item.KnownIn functions) :
    (Value.list items).KnownIn functions := by
  intro name hrefers
  obtain ⟨item, hmem, hitem⟩ := Value.refers_list_iff.mp hrefers
  exact h item hmem name hitem

/-- What is known stays known where no function is removed. -/
theorem Value.KnownIn.mono (h : value.KnownIn functions)
    (hkept : ∀ name, functions.contains name = true → functions'.contains name = true) :
    value.KnownIn functions' :=
  fun name hrefers => hkept name (h name hrefers)

theorem Value.KnownIn.insert (h : value.KnownIn functions) (name : String)
    (function : Function H) : value.KnownIn (functions.insert name function) :=
  h.mono fun _ => Table.contains_insert_of_contains functions function

end Known

/-- All values in frames have a property. -/
def Scopes.Hold (P : Value → Prop) (scopes : Scopes) : Prop :=
  ∀ index, ∀ entry ∈ (scopes.frame index).bindings.entries, P entry.2

namespace Scopes.Hold

variable {P Q : Value → Prop} {scopes : Scopes}

theorem root : Scopes.root.Hold P := by
  intro index entry hentry
  cases index with
  | zero =>
      cases hentry
  | succ index =>
      cases hentry

theorem imp (h : scopes.Hold P) (hPQ : ∀ value, P value → Q value) : scopes.Hold Q :=
  fun index entry hentry => hPQ entry.2 (h index entry hentry)

/-- The value of a local variable is in some frame, so it has the property. -/
theorem lookup {name : String} {value : Value} (h : scopes.Hold P)
    (hlookup : scopes.lookup? name = some value) : P value := by
  obtain ⟨index, _, hvalue⟩ := Option.bind_eq_some_iff.mp hlookup
  exact h index _ (Table.mem_of_find hvalue)

/-- A local variable may be set to a value that has the property. -/
theorem assign {value : Value} (h : scopes.Hold P) (name : String) (hvalue : P value) :
    (scopes.assign name value).Hold P := by
  intro index
  rw [Scopes.assign, Scopes.frame_bindAt]
  split
  · exact Table.forall_insert (h _) hvalue
  · exact h index

theorem pushFrame {frame : Frame} (h : scopes.Hold P)
    (hframe : ∀ entry ∈ frame.bindings.entries, P entry.2) : (scopes.pushFrame frame).Hold P := by
  intro index
  rw [Scopes.frame_pushFrame]
  split
  · exact hframe
  · exact h index

theorem push (h : scopes.Hold P) : scopes.push.Hold P :=
  h.pushFrame (List.forall_mem_nil _)

/-- A frame may be opened with values that have the property. -/
theorem pushBound {bindings : List (String × Value)} (h : scopes.Hold P)
    (hbindings : ∀ binding ∈ bindings, P binding.2) : (scopes.pushBound bindings).Hold P :=
  h.pushFrame (Table.forall_insertAll (List.forall_mem_nil _) hbindings)

/-- To close a frame takes values away, and adds none. -/
theorem pop (h : scopes.Hold P) : scopes.pop.Hold P := by
  intro index
  rw [Scopes.frame_pop]
  split
  · exact h index
  · exact List.forall_mem_nil _

end Scopes.Hold

section Growth

/-- A session that has all names of functions and units that another has. -/
structure Session.Extends (s s' : Session H) : Prop where
  functions : ∀ name, s.functions.contains name = true → s'.functions.contains name = true
  programs : ∀ name, s.programs.contains name = true → s'.programs.contains name = true

/-- Whatever the run comes to, no name of a function or a unit is gone from a session. -/
def Run.Extends (run : Run H) (s : Session H) : Prop :=
  ∀ outcome s', run = some (outcome, s') → s.Extends s'

theorem Session.Extends.refl (s : Session H) : s.Extends s :=
  ⟨fun _ => id, fun _ => id⟩

/-- A session beside itself, with the names of functions and units that there were before. -/
def Simulation.growing (before : Session H) : Simulation H where
  World := Unit
  Rel _ s t := s = t ∧ before.Extends s
  getGlobal := by
    rintro _ _ _ ⟨rfl, _⟩ _
    rfl
  getLocal := by
    rintro _ _ _ ⟨rfl, _⟩ _
    rfl
  getFunction := by
    rintro _ _ _ ⟨rfl, _⟩ _
    rfl
  getProgram := by
    rintro _ _ _ ⟨rfl, _⟩ _
    rfl
  loader := by
    rintro _ _ _ ⟨rfl, _⟩
    rfl
  host := by
    rintro _ _ _ ⟨rfl, _⟩
    exact ⟨rfl, rfl⟩
  calls := by
    rintro _ _ _ ⟨rfl, _⟩
    exact ⟨rfl, .inl rfl⟩
  setGlobal := by
    rintro _ s _ ⟨rfl, hs⟩ _ _
    exact ⟨rfl, hs.functions, hs.programs⟩
  setLocal := by
    rintro _ s _ ⟨rfl, hs⟩ _ _
    exact ⟨rfl, hs.functions, hs.programs⟩
  setHost := by
    rintro _ s _ ⟨rfl, hs⟩ _
    exact ⟨rfl, hs.functions, hs.programs⟩
  define := by
    rintro _ s _ ⟨rfl, hs⟩ name params body
    refine ⟨rfl, fun other hother => ?_, hs.programs⟩
    exact Table.contains_insert_of_contains _ _ (hs.functions other hother)
  addProgram := by
    rintro _ s _ ⟨rfl, hs⟩ program
    refine ⟨rfl, hs.functions, fun other hother => ?_⟩
    exact Table.contains_insert_of_contains _ _ (hs.programs other hother)
  enterScope := by
    rintro _ s _ ⟨rfl, hs⟩
    refine ⟨(), ⟨rfl, hs.functions, hs.programs⟩, ?_⟩
    rintro s _ ⟨rfl, hs⟩
    exact ⟨rfl, fun _ => ⟨⟨rfl, hs⟩, fun _ => id⟩, fun _ => ⟨rfl, hs.functions, hs.programs⟩⟩
  enterCall := by
    rintro _ s _ ⟨rfl, hs⟩ bindings
    refine ⟨(), (), ⟨rfl, ?_⟩, ?_, ?_⟩
    · rw [Session.called_eq]
      exact ⟨hs.functions, hs.programs⟩
    · rintro s _ ⟨rfl, hs⟩
      exact ⟨rfl, hs.functions, hs.programs⟩
    · rintro s _ ⟨rfl, hs⟩
      exact ⟨rfl, fun _ => ⟨⟨rfl, hs⟩, fun _ => id⟩, fun _ => ⟨rfl, hs.functions, hs.programs⟩⟩

/-- A session that keeps the names it starts with ends with them. -/
theorem Run.SimulatedBy.extends
    {run : Run H} {s : Session H}
    (h : Run.SimulatedBy (fun _ => False) ((Simulation.growing s).Rel ()) run run) :
    run.Extends s := by
  intro outcome s' hrun
  obtain ⟨_, _, _, hs'⟩ := h.exists_of_eq_some hrun
  exact hs'

/-- Evaluation of a tree removes no function and no unit. -/
theorem eval_extends (fuel : Nat) (node : Node) (s : Session H) :
    (eval fuel node s).Extends s :=
  ((Simulation.growing s).keeps_eval (Nat.le_refl fuel) () node s s ⟨rfl, .refl s⟩).extends

/-- Evaluation removes no function and no unit: that of a tree, a call, an import, a unit. -/
theorem evaluation_extends (fuel : Nat) (s : Session H) :
    (∀ node, (eval fuel node s).Extends s) ∧
    (∀ name args, (Eval.invoke (eval fuel) name args s).Extends s) ∧
    (∀ depth reference, (Eval.importUnit (eval fuel) depth reference s).Extends s) ∧
    (∀ depth name, (Eval.runProgram (eval fuel) depth name s).Extends s) := by
  have hkeeps : (Simulation.growing s).Keeps (eval fuel) (eval fuel) :=
    (Simulation.growing s).keeps_eval (Nat.le_refl fuel)
  have hself : (Simulation.growing s).Rel () s s := ⟨rfl, .refl s⟩
  refine ⟨fun node => eval_extends fuel node s, fun name args => ?_, fun depth reference => ?_,
    fun depth name => ?_⟩
  · exact (Simulation.invoke_simulated hkeeps name args hself).extends
  · exact (Simulation.importUnit_simulated hkeeps (Nat.le_refl _) reference hself).extends
  · exact (Simulation.runProgram_simulated hkeeps (Nat.le_refl _) name hself).extends

end Growth

end DocScript
