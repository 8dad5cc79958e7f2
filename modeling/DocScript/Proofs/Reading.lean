import DocScript.Node.Reader

/-!
# One level of reading

What reading a document comes to, given what reading its parts comes to: which key
names which construct, which field holds which part, and when a step that depends on
other steps succeeds. The recursion of the reader is not opened outside of this file.

* `Reads` says that a step gives a result.
* `Node.ofConstruct_operator` and `Node.ofConstruct_keyword` read an object of one member.
* `Node.nodeField_eq` and its companions read the part that a field is found to hold.
-/

namespace DocScript

variable {α β : Type}

/-- A key that stands for an operator. -/
def Operator.Names (op : Operator) (key : String) : Prop :=
  key = op.sign ∨ key = op.word

/-- A key that stands for a keyword. -/
def Keyword.Names (keyword : Keyword) (key : String) : Prop :=
  key = keyword.name ∨ keyword.alias? = some key

/-- An operator is found under its sign and under its word, and under no other key. -/
theorem Operator.ofName?_eq_some_iff {op : Operator} {key : String} :
    Operator.ofName? key = some op ↔ op.Names key := by
  constructor
  · intro hfound
    have hname := List.find?_some hfound
    rw [Bool.or_eq_true, decide_eq_true_eq, decide_eq_true_eq] at hname
    exact hname.imp Eq.symm Eq.symm
  · rintro (rfl | rfl)
    · exact Operator.ofName?_sign op
    · exact Operator.ofName?_word op

/-- A keyword is found under its name and under its other name, and under no further key. -/
theorem Keyword.ofName?_eq_some_iff {keyword : Keyword} {key : String} :
    Keyword.ofName? key = some keyword ↔ keyword.Names key := by
  constructor
  · intro hfound
    have hname := List.find?_some hfound
    rw [Bool.or_eq_true, decide_eq_true_eq, decide_eq_true_eq] at hname
    exact hname.imp Eq.symm id
  · rintro (rfl | halias)
    · exact Keyword.ofName?_name keyword
    · cases keyword <;> cases halias <;> decide

/-- What names a keyword names no operator. -/
theorem Keyword.Names.operator_eq_none {keyword : Keyword} {key : String}
    (hkey : keyword.Names key) :
    Operator.ofName? key = none := by
  -- No key stands for both, so it does not matter which is looked up first.
  rcases hkey with rfl | halias
  · cases keyword <;> decide
  · cases keyword <;> cases halias <;> decide

section Size

/-- What passes from all smaller documents to a document holds of every document. -/
theorem Json.induction_on_size {motive : Json → Prop} (document : Json)
    (step : ∀ document, (∀ part, sizeOf part < sizeOf document → motive part) → motive document) :
    motive document :=
  (measure (sizeOf : Json → Nat)).wf.induction document step

theorem Json.sizeOf_lt_array {item : Json} {items : List Json} (hitem : item ∈ items) :
    sizeOf item < sizeOf (Json.array items) := by
  have hsize := List.sizeOf_lt_of_mem hitem
  rw [Json.array.sizeOf_spec]
  omega

theorem Json.sizeOf_lt_object {name : String} {item : Json} {members : List (String × Json)}
    (hmember : (name, item) ∈ members) :
    sizeOf item < sizeOf (Json.object members) := by
  have hsize := List.sizeOf_lt_of_mem hmember
  rw [Prod.mk.sizeOf_spec] at hsize
  rw [Json.object.sizeOf_spec]
  omega

/-- What is found under a field is smaller than the members it is found among. -/
theorem Table.sizeOf_lt_of_find {field : String} {part : Json} {members : List (String × Json)}
    (hfind : Table.find field members = some part) :
    sizeOf part < sizeOf members := by
  induction members with
  | nil =>
      cases hfind
  | cons member rest ih =>
      obtain ⟨name, item⟩ := member
      rw [Table.find] at hfind
      split at hfind
      · cases hfind
        simp only [List.cons.sizeOf_spec, Prod.mk.sizeOf_spec]
        omega
      · have hrest := ih hfind
        simp only [List.cons.sizeOf_spec, Prod.mk.sizeOf_spec]
        omega

end Size

/-- One string, or a list of strings. -/
inductive IsNames : Json → Prop
  | one (name : String) :
      IsNames (.string name)
  | several (names : List String) :
      IsNames (.array (names.map .string))

/-- The field `name` is there and holds a string. -/
def HasName (members : List (String × Json)) : Prop :=
  ∃ name, Table.find "name" members = some (.string name)

/-- A step of reading that gives a result. -/
def Reads (step : Except Malformed α) : Prop :=
  ∃ result, step = .ok result

@[simp] theorem reads_ok (result : α) : Reads (.ok result) :=
  ⟨result, rfl⟩

@[simp] theorem not_reads_error (defect : Malformed) :
    ¬ Reads (.error defect : Except Malformed α) := by
  rintro ⟨result, hresult⟩
  cases hresult

@[simp] theorem reads_map {f : α → β} {step : Except Malformed α} :
    Reads (step.map f) ↔ Reads step := by
  cases step with
  | ok result =>
      exact iff_of_true (reads_ok (f result)) (reads_ok result)
  | error defect =>
      exact iff_of_false (not_reads_error defect) (not_reads_error defect)

@[simp] theorem reads_fmap {f : α → β} {step : Except Malformed α} :
    Reads (f <$> step) ↔ Reads step :=
  reads_map

@[simp] theorem exists_eq_ok {step : Except Malformed α} :
    (∃ result, step = .ok result) ↔ Reads step :=
  Iff.rfl

/-- Two steps give a result if the first does, and the second does with it. -/
@[simp] theorem reads_bind {f : α → Except Malformed β} {step : Except Malformed α} :
    Reads (step >>= f) ↔ ∃ result, step = .ok result ∧ Reads (f result) := by
  cases step with
  | ok result =>
      simp [bind, Except.bind]
  | error defect =>
      simp [bind, Except.bind]

namespace Node

variable {keyword : Keyword} {field : String} {items : List Json} {members : List (String × Json)}

/-- The construct that a keyword makes of a payload. -/
def ofKeyword (keyword : Keyword) (payload : Json) : Except Malformed Node :=
  match keyword with
  | .return => (ofJson payload).map .ret
  | .imports => (references payload).map .imports
  | .comment => .ok .comment
  | .list =>
      match payload with
      | .array items => (ofItems items).map .list
      | _ => .error (.shape (.keyword .list) .notList)
  | keyword => ofPayload keyword payload

/-- An object whose one key names a keyword is what the keyword makes of its payload. -/
theorem ofConstruct_keyword {key : String} (hkey : keyword.Names key) (payload : Json) :
    ofConstruct [(key, payload)] = ofKeyword keyword payload := by
  unfold ofConstruct
  rw [hkey.operator_eq_none, Keyword.ofName?_eq_some_iff.mpr hkey]
  cases keyword <;> rfl

/-- The operation that an operator makes of a payload. -/
def ofOperator (op : Operator) (payload : Json) : Except Malformed Node :=
  match payload with
  | .array [] => .error (.shape (.operator op) .noOperand)
  | .array items => (ofItems items).map (.operation op)
  | _ => .error (.shape (.operator op) .notList)

/-- An object whose one key names an operator is what the operator makes of its payload. -/
theorem ofConstruct_operator {op : Operator} {key : String} (hkey : op.Names key)
    (payload : Json) :
    ofConstruct [(key, payload)] = ofOperator op payload := by
  unfold ofConstruct
  rw [Operator.ofName?_eq_some_iff.mpr hkey]
  rfl

/-- The three trees of a range. -/
def ofRange : Json → Except Malformed (Node × Node × Node)
  | .array [init, condition, step] => do
      let init ← ofJson init
      let condition ← ofJson condition
      return (init, condition, ← ofJson step)
  | _ => .error (.shape (.keyword .for) .rangeNotTriple)

/-- The trees of an object of cases. -/
def ofCaseObject : Json → Except Malformed (List (String × Node))
  | .object cases => ofCases cases
  | _ => .error (.shape (.keyword .switch) .caseNotObject)

/-- The trees of one argument, or of a list of them. -/
def ofArguments : Json → Except Malformed (List Node)
  | .array items => ofItems items
  | single => (ofJson single).map ([·])

/-- The reader goes through the members for a field; this is to read what is found under it. -/
theorem nodeField_eq (field : String) (members : List (String × Json)) :
    nodeField field members = (Table.find field members).map ofJson := by
  induction members with
  | nil =>
      rfl
  | cons member rest ih =>
      obtain ⟨name, item⟩ := member
      rw [nodeField, Table.find, ih]
      split <;> rfl

theorem rangeField_eq (members : List (String × Json)) :
    rangeField members = (Table.find "range" members).map ofRange := by
  induction members with
  | nil =>
      rfl
  | cons member rest ih =>
      obtain ⟨name, item⟩ := member
      unfold rangeField
      rw [Table.find, ih]
      split
      · rw [Option.map_some]
        split
        · rfl
        · next hitem =>
            rw [ofRange]
            exact hitem
      · rfl

theorem caseField_eq (members : List (String × Json)) :
    caseField members = (Table.find "case" members).map ofCaseObject := by
  induction members with
  | nil =>
      rfl
  | cons member rest ih =>
      obtain ⟨name, item⟩ := member
      unfold caseField
      rw [Table.find, ih]
      split
      · cases item <;> rfl
      · rfl

theorem argsField_eq (members : List (String × Json)) :
    argsField members = (Table.find "args" members).map ofArguments := by
  induction members with
  | nil =>
      rfl
  | cons member rest ih =>
      obtain ⟨name, item⟩ := member
      unfold argsField
      rw [Table.find, ih]
      split
      · cases item <;> rfl
      · rfl

/-- A field that has to be there gives a result if it is there and its part is read. -/
theorem reads_required (read : Json → Except Malformed α) :
    Reads (required keyword field ((Table.find field members).map read)) ↔
      ∃ part, Table.find field members = some part ∧ Reads (read part) := by
  cases Table.find field members with
  | none =>
      simp [required]
  | some part =>
      simp [required]

/-- A field that may be left out gives a result unless it is there and its part is refused. -/
theorem reads_optional (read : Json → Except Malformed α) :
    Reads (optional ((Table.find field members).map read)) ↔
      ∀ part, Table.find field members = some part → Reads (read part) := by
  cases Table.find field members with
  | none =>
      simp [optional]
  | some part =>
      simp [optional]

theorem reads_nameField : Reads (nameField keyword members) ↔ HasName members := by
  unfold nameField HasName
  split <;> simp_all

/-- Items are read if each of them is. -/
theorem reads_ofItems : Reads (ofItems items) ↔ ∀ item ∈ items, Reads (ofJson item) := by
  induction items with
  | nil =>
      simp [ofItems]
  | cons item rest ih =>
      simp [ofItems, ih]

theorem reads_ofCases {cases : List (String × Json)} :
    Reads (ofCases cases) ↔ ∀ case ∈ cases, Reads (ofJson case.2) := by
  induction cases with
  | nil =>
      simp [ofCases]
  | cons case rest ih =>
      simp [ofCases, ih]

/-- An object has one member that names an operator or a keyword, or is refused. -/
theorem ofConstruct_cases (members : List (String × Json)) :
    (∃ op key payload, members = [(key, payload)] ∧ Operator.Names op key) ∨
    (∃ keyword key payload, members = [(key, payload)] ∧ Keyword.Names keyword key) ∨
    (∃ key, ofConstruct members = .error (.unknown key)) ∨
    (∃ count, ofConstruct members = .error (.shape .node (.notOneKeyword count))) := by
  match members with
  | [] =>
      exact .inr (.inr (.inr ⟨_, rfl⟩))
  | first :: second :: rest =>
      exact .inr (.inr (.inr ⟨_, rfl⟩))
  | [(key, payload)] =>
      cases hop : Operator.ofName? key with
      | some op =>
          exact .inl ⟨op, key, payload, rfl, Operator.ofName?_eq_some_iff.mp hop⟩
      | none =>
          cases hkeyword : Keyword.ofName? key with
          | some keyword =>
              have hkey := Keyword.ofName?_eq_some_iff.mp hkeyword
              exact .inr (.inl ⟨keyword, key, payload, rfl, hkey⟩)
          | none =>
              refine .inr (.inr (.inl ⟨key, ?_⟩))
              unfold ofConstruct
              rw [hop, hkeyword]

/-- A list of strings is one that is made from strings. -/
theorem strings?_eq_some_iff {items : List Json} {names : List String} :
    strings? items = some names ↔ items = names.map .string := by
  induction items generalizing names with
  | nil =>
      cases names <;> simp [strings?]
  | cons item rest ih =>
      cases item with
      | string name =>
          rw [strings?, Option.map_eq_some_iff]
          constructor
          · rintro ⟨others, hrest, rfl⟩
            rw [ih.mp hrest, List.map_cons]
          · intro hitems
            cases names with
            | nil =>
                cases hitems
            | cons first others =>
                cases hitems
                exact ⟨others, ih.mpr rfl, rfl⟩
      | _ =>
          cases names <;> simp [strings?]

theorem isNames_array_iff :
    IsNames (.array items) ↔ ∃ names, strings? items = some names := by
  constructor
  · intro hnames
    cases hnames with
    | several names =>
        exact ⟨names, strings?_eq_some_iff.mpr rfl⟩
  · rintro ⟨names, hnames⟩
    rw [strings?_eq_some_iff.mp hnames]
    exact .several names

/-- What an import refers to is one string, or a list of strings. -/
theorem reads_references {payload : Json} :
    Reads (references payload) ↔ IsNames payload := by
  cases payload with
  | string reference =>
      exact iff_of_true (reads_ok _) (.one reference)
  | array items =>
      rw [references, isNames_array_iff]
      cases strings? items with
      | none =>
          simp
      | some names =>
          simp
  | _ =>
      exact iff_of_false (not_reads_error _) nofun

/-- Parameters are named by one string or by a list of strings, or left out. -/
theorem reads_params {given : Option Json} :
    Reads (params given) ↔ ∀ args, given = some args → IsNames args := by
  cases given with
  | none =>
      exact iff_of_true (reads_ok _) nofun
  | some args =>
      simp only [Option.some.injEq, forall_eq']
      cases args with
      | string name =>
          exact iff_of_true (reads_ok _) (.one name)
      | array items =>
          rw [params, isNames_array_iff]
          cases strings? items with
          | none =>
              simp
          | some names =>
              simp
      | _ =>
          exact iff_of_false (not_reads_error _) nofun

/-- An operator takes a list with at least one operand, each of which is read. -/
theorem reads_ofOperator {op : Operator} {payload : Json} :
    Reads (ofOperator op payload) ↔
      ∃ items, payload = .array items ∧ items ≠ [] ∧ ∀ item ∈ items, Reads (ofJson item) := by
  unfold ofOperator
  split
  · simp
  · next items hsome =>
      rw [reads_map, reads_ofItems]
      constructor
      · intro hitems
        exact ⟨items, rfl, hsome, hitems⟩
      · rintro ⟨others, hothers, -, hitems⟩
        cases hothers
        exact hitems
  · next hother =>
      simp only [not_reads_error, false_iff]
      rintro ⟨items, hpayload, -⟩
      exact hother items hpayload

theorem reads_ofRange_triple {init condition step : Json} :
    Reads (ofRange (.array [init, condition, step])) ↔
      Reads (ofJson init) ∧ Reads (ofJson condition) ∧ Reads (ofJson step) := by
  simp [ofRange]

-- The equations of `ofPayload` serve the ten keywords that take fields.
attribute [local simp] ofPayload

theorem reads_var :
    Reads (ofPayload .var (.object members)) ↔ HasName members := by
  simp [reads_nameField]

/-- The initial value of a local variable may be left out. -/
theorem reads_local :
    Reads (ofPayload .local (.object members)) ↔
      HasName members ∧
      ∀ value, Table.find "value" members = some value → Reads (ofJson value) := by
  simp [nodeField_eq, reads_nameField, reads_optional]

theorem reads_set :
    Reads (ofPayload .set (.object members)) ↔
      HasName members ∧
      ∃ value, Table.find "value" members = some value ∧ Reads (ofJson value) := by
  simp [nodeField_eq, reads_nameField, reads_required]

theorem reads_setLocal :
    Reads (ofPayload .setLocal (.object members)) ↔
      HasName members ∧
      ∃ value, Table.find "value" members = some value ∧ Reads (ofJson value) := by
  simp [nodeField_eq, reads_nameField, reads_required]

/-- The branch that is taken on false may be left out, and the other one may not. -/
theorem reads_if :
    Reads (ofPayload .if (.object members)) ↔
      (∃ condition, Table.find "condition" members = some condition ∧ Reads (ofJson condition)) ∧
      (∃ thenBranch, Table.find "then" members = some thenBranch ∧ Reads (ofJson thenBranch)) ∧
      ∀ elseBranch, Table.find "else" members = some elseBranch → Reads (ofJson elseBranch) := by
  simp [nodeField_eq, reads_required, reads_optional]

/-- A loop over a range needs the three trees of the range, and a body. -/
theorem reads_for :
    Reads (ofPayload .for (.object members)) ↔
      (∃ range, Table.find "range" members = some range ∧ Reads (ofRange range)) ∧
      ∃ code, Table.find "code" members = some code ∧ Reads (ofJson code) := by
  simp [nodeField_eq, rangeField_eq, reads_required]

theorem reads_while :
    Reads (ofPayload .while (.object members)) ↔
      (∃ condition, Table.find "condition" members = some condition ∧ Reads (ofJson condition)) ∧
      ∃ code, Table.find "code" members = some code ∧ Reads (ofJson code) := by
  simp [nodeField_eq, reads_required]

/-- A choice needs an object of cases, and the value that is looked for among them. -/
theorem reads_switch :
    Reads (ofPayload .switch (.object members)) ↔
      (∃ cases, Table.find "case" members = some cases ∧ Reads (ofCaseObject cases)) ∧
      ∃ value, Table.find "value" members = some value ∧ Reads (ofJson value) := by
  simp [nodeField_eq, caseField_eq, reads_required]

/-- A definition needs a name and a body; its parameters may be left out. -/
theorem reads_define :
    Reads (ofPayload .define (.object members)) ↔
      (∀ args, Table.find "args" members = some args → IsNames args) ∧
      HasName members ∧
      ∃ code, Table.find "code" members = some code ∧ Reads (ofJson code) := by
  simp [nodeField_eq, reads_params, reads_nameField, reads_required]

/-- A call needs a name; its arguments may be left out. -/
theorem reads_call :
    Reads (ofPayload .call (.object members)) ↔
      (∀ args, Table.find "args" members = some args → Reads (ofArguments args)) ∧
      HasName members := by
  simp [argsField_eq, reads_nameField, reads_optional]

end Node
end DocScript
