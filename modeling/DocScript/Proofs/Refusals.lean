import DocScript.Proofs.Reading

/-!
# What a reader may find at fault

A document that is already JSON is refused for the shape of a construct or for a key
that names none, never for its text. A step of reading keeps to this if the steps it
depends on do; the whole follows by induction on the size of the document.
-/

namespace DocScript

variable {α β : Type}

/-- A step of reading that does not fault the text. -/
def Structural (step : Except Malformed α) : Prop :=
  ∀ fault, step ≠ .error (.notJson fault)

theorem structural_ok (result : α) : Structural (.ok result) := by
  intro fault hfault
  cases hfault

theorem structural_shape (construct : Construct) (defect : Defect) :
    Structural (.error (.shape construct defect) : Except Malformed α) := by
  intro fault hfault
  cases hfault

theorem structural_unknown (key : String) :
    Structural (.error (.unknown key) : Except Malformed α) := by
  intro fault hfault
  cases hfault

theorem Structural.map {step : Except Malformed α} (hstep : Structural step) (f : α → β) :
    Structural (step.map f) := by
  cases step with
  | ok result =>
      exact structural_ok (f result)
  | error defect =>
      intro fault hfault
      cases hfault
      exact hstep fault rfl

/-- Two steps do not fault the text if the first does not, and the second never does. -/
theorem Structural.bind {f : α → Except Malformed β} {step : Except Malformed α}
    (hstep : Structural step) (hf : ∀ result, Structural (f result)) :
    Structural (step >>= f) := by
  cases step with
  | ok result =>
      exact hf result
  | error defect =>
      intro fault hfault
      cases hfault
      exact hstep fault rfl

namespace Node

variable {keyword : Keyword} {field : String} {items : List Json} {members : List (String × Json)}

/-- A required field faults the text only if the part that it holds does. -/
theorem structural_required {read : Json → Except Malformed α}
    (hread : ∀ part, Table.find field members = some part → Structural (read part)) :
    Structural (required keyword field ((Table.find field members).map read)) := by
  cases hfind : Table.find field members with
  | none =>
      exact structural_shape _ _
  | some part =>
      exact hread part hfind

/-- A field that may be left out faults the text only if the part that it holds does. -/
theorem structural_optional {read : Json → Except Malformed α}
    (hread : ∀ part, Table.find field members = some part → Structural (read part)) :
    Structural (optional ((Table.find field members).map read)) := by
  cases hfind : Table.find field members with
  | none =>
      exact structural_ok _
  | some part =>
      exact (hread part hfind).map some

theorem structural_nameField : Structural (nameField keyword members) := by
  unfold nameField
  split
  · exact structural_shape _ _
  · exact structural_ok _
  · exact structural_shape _ _

theorem structural_references (payload : Json) : Structural (references payload) := by
  unfold references
  split
  · exact structural_ok _
  · split
    · exact structural_ok _
    · exact structural_shape _ _
  · exact structural_shape _ _

theorem structural_params (given : Option Json) : Structural (params given) := by
  unfold params
  split
  · exact structural_ok _
  · exact structural_ok _
  · split
    · exact structural_ok _
    · exact structural_shape _ _
  · exact structural_shape _ _

theorem structural_ofShorthand (name : String) : Structural (ofShorthand keyword name) := by
  cases keyword with
  | var | «local» | call =>
      exact structural_ok _
  | _ =>
      exact structural_shape _ _

/-- A list faults the text only if one of its items does. -/
theorem structural_ofItems (hitems : ∀ item ∈ items, Structural (ofJson item)) :
    Structural (ofItems items) := by
  induction items with
  | nil =>
      exact structural_ok _
  | cons item rest ih =>
      rw [List.forall_mem_cons] at hitems
      rw [ofItems]
      refine hitems.1.bind ?_
      intro node
      exact (ih hitems.2).bind fun nodes => structural_ok _

theorem structural_ofCases {cases : List (String × Json)}
    (hcases : ∀ case ∈ cases, Structural (ofJson case.2)) :
    Structural (ofCases cases) := by
  induction cases with
  | nil =>
      exact structural_ok _
  | cons case rest ih =>
      rw [List.forall_mem_cons] at hcases
      rw [ofCases]
      refine hcases.1.bind ?_
      intro node
      exact (ih hcases.2).bind fun nodes => structural_ok _

/-- The fields of a keyword are read one after the other, and each is smaller than all of them. -/
theorem structural_ofFields
    (hparts : ∀ part, sizeOf part < sizeOf members → Structural (ofJson part)) :
    Structural (ofPayload keyword (.object members)) := by
  have hpart : ∀ field part, Table.find field members = some part →
      Structural (ofJson part) := by
    intro field part hfind
    exact hparts part (Table.sizeOf_lt_of_find hfind)
  have hname (keyword : Keyword) : Structural (nameField keyword members) :=
    structural_nameField
  have hrequired (keyword : Keyword) (field : String) :
      Structural (required keyword field (nodeField field members)) := by
    rw [nodeField_eq]
    exact structural_required (hpart field)
  have hoptional (field : String) :
      Structural (optional (nodeField field members)) := by
    rw [nodeField_eq]
    exact structural_optional (hpart field)
  cases keyword with
  | var =>
      exact (hname _).bind fun _ => structural_ok _
  | «local» =>
      exact (hname _).bind fun _ => (hoptional _).bind fun _ => structural_ok _
  | set | setLocal =>
      exact (hname _).bind fun _ => (hrequired _ _).bind fun _ => structural_ok _
  | «if» =>
      exact (hrequired _ _).bind fun _ => (hrequired _ _).bind fun _ =>
        (hoptional _).bind fun _ => structural_ok _
  | «for» =>
      have hrange : Structural (required .for "range" (rangeField members)) := by
        rw [rangeField_eq]
        apply structural_required
        intro range hfind
        have hsize := Table.sizeOf_lt_of_find hfind
        unfold ofRange
        split
        · simp only [Json.array.sizeOf_spec, List.cons.sizeOf_spec] at hsize
          exact (hparts _ (by omega)).bind fun _ => (hparts _ (by omega)).bind fun _ =>
            (hparts _ (by omega)).bind fun _ => structural_ok _
        · exact structural_shape _ _
      exact hrange.bind fun _ => (hrequired _ _).bind fun _ => structural_ok _
  | «while» =>
      exact (hrequired _ _).bind fun _ => (hrequired _ _).bind fun _ => structural_ok _
  | switch =>
      have hcases : Structural (required .switch "case" (caseField members)) := by
        rw [caseField_eq]
        apply structural_required
        intro object hfind
        have hsize := Table.sizeOf_lt_of_find hfind
        unfold ofCaseObject
        split
        · next cases =>
            apply structural_ofCases
            intro case hcase
            have hcaseSize := Json.sizeOf_lt_object hcase
            exact hparts case.2 (by omega)
        · exact structural_shape _ _
      exact hcases.bind fun _ => (hrequired _ _).bind fun _ => structural_ok _
  | define =>
      exact (structural_params _).bind fun _ => (hname _).bind fun _ =>
        (hrequired _ _).bind fun _ => structural_ok _
  | call =>
      have hargs : Structural (optional (argsField members)) := by
        rw [argsField_eq]
        apply structural_optional
        intro args hfind
        have hsize := Table.sizeOf_lt_of_find hfind
        unfold ofArguments
        split
        · next items =>
            apply structural_ofItems
            intro item hitem
            have hitemSize := Json.sizeOf_lt_array hitem
            exact hparts item (by omega)
        · exact (hparts args hsize).map _
      exact hargs.bind fun _ => (hname _).bind fun _ => structural_ok _
  | _ =>
      exact structural_shape _ _

/-- A keyword that takes fields is given an object of them, or a name that stands for one. -/
theorem structural_ofPayload (payload : Json)
    (hparts : ∀ part, sizeOf part < sizeOf payload → Structural (ofJson part)) :
    Structural (ofPayload keyword payload) := by
  cases payload with
  | object members =>
      apply structural_ofFields
      intro part hsize
      apply hparts
      rw [Json.object.sizeOf_spec]
      omega
  | string name =>
      rw [ofPayload]
      exact structural_ofShorthand name
  | _ =>
      exact structural_shape _ _

/-- The payload of `return` is a tree itself, so a payload counts among its parts here. -/
theorem structural_ofKeyword (payload : Json)
    (hparts : ∀ part, sizeOf part ≤ sizeOf payload → Structural (ofJson part)) :
    Structural (ofKeyword keyword payload) := by
  cases keyword with
  | «return» =>
      exact (hparts payload (Nat.le_refl _)).map _
  | imports =>
      exact (structural_references payload).map _
  | comment =>
      exact structural_ok _
  | list =>
      cases payload with
      | array items =>
          refine (structural_ofItems ?_).map _
          intro item hitem
          have hsize := Json.sizeOf_lt_array hitem
          exact hparts item (by omega)
      | _ =>
          exact structural_shape _ _
  | _ =>
      refine structural_ofPayload payload ?_
      intro part hsize
      exact hparts part (by omega)

/-- An operator reads the items of its payload, and refuses it for its shape otherwise. -/
theorem structural_ofOperator {op : Operator} (payload : Json)
    (hparts : ∀ part, sizeOf part < sizeOf payload → Structural (ofJson part)) :
    Structural (ofOperator op payload) := by
  unfold ofOperator
  split
  · exact structural_shape _ _
  · refine (structural_ofItems ?_).map _
    intro item hitem
    exact hparts item (Json.sizeOf_lt_array hitem)
  · exact structural_shape _ _

/-- Reading a document never faults its text. -/
theorem structural_ofJson (document : Json) : Structural (ofJson document) := by
  induction document using Json.induction_on_size with
  | step document ih =>
      cases document with
      | array items =>
          rw [ofJson]
          refine (structural_ofItems ?_).map _
          intro item hitem
          exact ih item (Json.sizeOf_lt_array hitem)
      | object members =>
          rw [ofJson]
          rcases ofConstruct_cases members with
            ⟨op, key, payload, rfl, hkey⟩ | ⟨keyword, key, payload, rfl, hkey⟩ |
            ⟨key, hrefused⟩ | ⟨count, hrefused⟩
          · rw [ofConstruct_operator hkey]
            apply structural_ofOperator
            intro part hsize
            have hpayload := Json.sizeOf_lt_object (List.mem_singleton_self (key, payload))
            exact ih part (by omega)
          · rw [ofConstruct_keyword hkey]
            apply structural_ofKeyword
            intro part hsize
            have hpayload := Json.sizeOf_lt_object (List.mem_singleton_self (key, payload))
            exact ih part (by omega)
          · rw [hrefused]
            exact structural_unknown key
          · rw [hrefused]
            exact structural_shape _ _
      | _ =>
          exact structural_ok _

end Node
end DocScript
