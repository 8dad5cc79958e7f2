import DocScript.Proofs.Grammar
import DocScript.Proofs.Subtrees

/-!
# Trees that are read

What a tree looks like that has been read from a document, one level deep: `Node.Makes`
lists the trees that a keyword makes of a payload, given the trees of the parts, and
`Node.ReadAs` those that a document is read as.

**Results.**
* `Node.ofJson_eq_ok_iff`: reading goes one level deep as `Node.ReadAs` says.
* `Node.exists_part_of_read`: what lies directly within a tree has been read from a part
  of the document.
* `Node.everywhere_of_read`: so a property that every tree has where it is read holds
  everywhere in a tree, by induction on the size of the document.
* `Node.regular_of_read`: in a tree that is read every literal is a scalar, with a
  number of the document if it is a number, and every operation has an operand.
-/

namespace DocScript

section Results

variable {α β : Type} {result : β}

/-- Two steps give a result just if the first does, and the second gives it from there. -/
theorem bind_eq_ok_iff {f : α → Except Malformed β} {step : Except Malformed α} :
    (step >>= f) = .ok result ↔ ∃ first, step = .ok first ∧ f first = .ok result := by
  cases step <;> simp [bind, Except.bind]

theorem map_eq_ok_iff {f : α → β} {step : Except Malformed α} :
    step.map f = .ok result ↔ ∃ first, step = .ok first ∧ f first = result := by
  cases step <;> simp [Except.map]

end Results

/-- A document that is neither a list nor an object. -/
def Json.IsScalar : Json → Prop
  | .array _ => False
  | .object _ => False
  | _ => True

namespace Node

variable {keyword : Keyword} {key field name : String} {payload part document : Json}
variable {items : List Json} {members : List (String × Json)} {node : Node} {nodes : List Node}

theorem nameField_eq_ok_iff :
    nameField keyword members = .ok name ↔ Table.find "name" members = some (.string name) := by
  unfold nameField
  split <;> simp_all

/-- A field that has to be there is read from the part that it holds. -/
theorem required_eq_ok_iff {α : Type} {read : Json → Except Malformed α} {result : α} :
    required keyword field ((Table.find field members).map read) = .ok result ↔
      ∃ part, Table.find field members = some part ∧ read part = .ok result := by
  cases Table.find field members <;> simp [required]

/-- A field that may be left out is read from the part that it holds, if there is one. -/
theorem optional_eq_ok_iff {α : Type} {read : Json → Except Malformed α} {result : Option α} :
    optional ((Table.find field members).map read) = .ok result ↔
      (Table.find field members = none ∧ result = none) ∨
      ∃ part found, Table.find field members = some part ∧ read part = .ok found ∧
        result = some found := by
  cases Table.find field members with
  | none =>
      simp [optional, eq_comm]
  | some part =>
      rw [Option.map_some, optional, map_eq_ok_iff]
      simp [eq_comm]

/-- The items of a list are read one by one. -/
theorem exists_item_of_ofItems (hread : ofItems items = .ok nodes) (hnode : node ∈ nodes) :
    ∃ item ∈ items, ofJson item = .ok node := by
  induction items generalizing nodes with
  | nil =>
      cases hread
      cases hnode
  | cons item rest ih =>
      simp only [ofItems, bind_eq_ok_iff] at hread
      obtain ⟨first, hfirst, others, hothers, hnodes⟩ := hread
      cases hnodes
      rcases List.mem_cons.mp hnode with rfl | hmem
      · exact ⟨item, List.mem_cons_self, hfirst⟩
      · obtain ⟨found, hfound, hitem⟩ := ih hothers hmem
        exact ⟨found, List.mem_cons_of_mem item hfound, hitem⟩

/-- Each item is read as a tree, so there are some if there are items. -/
theorem ofItems_ne_nil (hread : ofItems items = .ok nodes) (hsome : items ≠ []) :
    nodes ≠ [] := by
  cases items with
  | nil =>
      exact absurd rfl hsome
  | cons item rest =>
      simp only [ofItems, bind_eq_ok_iff] at hread
      obtain ⟨first, _, others, _, hnodes⟩ := hread
      cases hnodes
      exact List.cons_ne_nil first others

/-- The cases of a `switch` are read one by one. -/
theorem exists_case_of_ofCases {cases : List (String × Json)} {trees : List (String × Node)}
    (hread : ofCases cases = .ok trees) :
    trees.map Prod.fst = cases.map Prod.fst ∧
    ∀ tree ∈ trees, ∃ item, (tree.1, item) ∈ cases ∧ ofJson item = .ok tree.2 := by
  induction cases generalizing trees with
  | nil =>
      cases hread
      exact ⟨rfl, nofun⟩
  | cons case rest ih =>
      simp only [ofCases, bind_eq_ok_iff] at hread
      obtain ⟨first, hfirst, others, hothers, htrees⟩ := hread
      cases htrees
      obtain ⟨hnames, hitems⟩ := ih hothers
      refine ⟨by rw [List.map_cons, List.map_cons, hnames], ?_⟩
      intro tree htree
      rcases List.mem_cons.mp htree with rfl | hmem
      · exact ⟨case.2, List.mem_cons_self, hfirst⟩
      · obtain ⟨item, hitem, hread⟩ := hitems tree hmem
        exact ⟨item, List.mem_cons_of_mem case hitem, hread⟩

/-- The tree that a keyword makes of a payload, given the trees of the parts. -/
inductive Makes : Keyword → Json → Node → Prop
  | varName (name : String) :
      Makes .var (.string name) (.var name)
  | var {members : List (String × Json)} {name : String}
      (hname : Table.find "name" members = some (.string name)) :
      Makes .var (.object members) (.var name)
  | localName (name : String) :
      Makes .local (.string name) (.localVar name none)
  | localPlain {members : List (String × Json)} {name : String}
      (hname : Table.find "name" members = some (.string name))
      (hnone : Table.find "value" members = none) :
      Makes .local (.object members) (.localVar name none)
  | localValue {members : List (String × Json)} {name : String} {part : Json} {value : Node}
      (hname : Table.find "name" members = some (.string name))
      (hfind : Table.find "value" members = some part)
      (hvalue : ofJson part = .ok value) :
      Makes .local (.object members) (.localVar name (some value))
  | set {members : List (String × Json)} {name : String} {part : Json} {value : Node}
      (hname : Table.find "name" members = some (.string name))
      (hfind : Table.find "value" members = some part)
      (hvalue : ofJson part = .ok value) :
      Makes .set (.object members) (.set name value)
  | setLocal {members : List (String × Json)} {name : String} {part : Json} {value : Node}
      (hname : Table.find "name" members = some (.string name))
      (hfind : Table.find "value" members = some part)
      (hvalue : ofJson part = .ok value) :
      Makes .setLocal (.object members) (.setLocal name value)
  | branch {members : List (String × Json)} {condition thenPart : Json}
      {conditionNode thenNode : Node}
      (hfindCondition : Table.find "condition" members = some condition)
      (hcondition : ofJson condition = .ok conditionNode)
      (hfindThen : Table.find "then" members = some thenPart)
      (hthen : ofJson thenPart = .ok thenNode)
      (hnone : Table.find "else" members = none) :
      Makes .if (.object members) (.branch conditionNode thenNode none)
  | branchElse {members : List (String × Json)} {condition thenPart elsePart : Json}
      {conditionNode thenNode elseNode : Node}
      (hfindCondition : Table.find "condition" members = some condition)
      (hcondition : ofJson condition = .ok conditionNode)
      (hfindThen : Table.find "then" members = some thenPart)
      (hthen : ofJson thenPart = .ok thenNode)
      (hfindElse : Table.find "else" members = some elsePart)
      (helse : ofJson elsePart = .ok elseNode) :
      Makes .if (.object members) (.branch conditionNode thenNode (some elseNode))
  | forLoop {members : List (String × Json)} {init condition step code : Json}
      {initNode conditionNode stepNode codeNode : Node}
      (hfindRange : Table.find "range" members = some (.array [init, condition, step]))
      (hinit : ofJson init = .ok initNode)
      (hcondition : ofJson condition = .ok conditionNode)
      (hstep : ofJson step = .ok stepNode)
      (hfindCode : Table.find "code" members = some code)
      (hcode : ofJson code = .ok codeNode) :
      Makes .for (.object members) (.forLoop initNode conditionNode stepNode codeNode)
  | whileLoop {members : List (String × Json)} {condition code : Json}
      {conditionNode codeNode : Node}
      (hfindCondition : Table.find "condition" members = some condition)
      (hcondition : ofJson condition = .ok conditionNode)
      (hfindCode : Table.find "code" members = some code)
      (hcode : ofJson code = .ok codeNode) :
      Makes .while (.object members) (.whileLoop conditionNode codeNode)
  | switch {members cases : List (String × Json)} {part : Json} {value : Node}
      {trees : List (String × Node)}
      (hfindCases : Table.find "case" members = some (.object cases))
      (hcases : ofCases cases = .ok trees)
      (hfindValue : Table.find "value" members = some part)
      (hvalue : ofJson part = .ok value) :
      Makes .switch (.object members) (.switch value trees)
  | define {members : List (String × Json)} {name : String} {parameters : Params} {part : Json}
      {code : Node}
      (hparams : params (Table.find "args" members) = .ok parameters)
      (hname : Table.find "name" members = some (.string name))
      (hfind : Table.find "code" members = some part)
      (hcode : ofJson part = .ok code) :
      Makes .define (.object members) (.define name parameters code)
  | callName (name : String) :
      Makes .call (.string name) (.call name [])
  | callPlain {members : List (String × Json)} {name : String}
      (hname : Table.find "name" members = some (.string name))
      (hnone : Table.find "args" members = none) :
      Makes .call (.object members) (.call name [])
  | callEach {members : List (String × Json)} {name : String} {items : List Json}
      {args : List Node}
      (hname : Table.find "name" members = some (.string name))
      (hfind : Table.find "args" members = some (.array items))
      (hargs : ofItems items = .ok args) :
      Makes .call (.object members) (.call name args)
  | callOne {members : List (String × Json)} {name : String} {part : Json} {arg : Node}
      (hname : Table.find "name" members = some (.string name))
      (hfind : Table.find "args" members = some part)
      (hsingle : ∀ items, part ≠ .array items)
      (harg : ofJson part = .ok arg) :
      Makes .call (.object members) (.call name [arg])
  | ret {payload : Json} {value : Node}
      (hvalue : ofJson payload = .ok value) :
      Makes .return payload (.ret value)
  | imports {payload : Json} {names : List String}
      (hnames : references payload = .ok names) :
      Makes .imports payload (.imports names)
  | list {items : List Json} {nodes : List Node}
      (hitems : ofItems items = .ok nodes) :
      Makes .list (.array items) (.list nodes)
  | comment (payload : Json) :
      Makes .comment payload .comment

/-- A name stands for the construct that has it and nothing else. -/
theorem Makes.of_ofShorthand (hread : ofShorthand keyword name = .ok node) :
    Makes keyword (.string name) node := by
  cases keyword with
  | var =>
      cases hread
      exact .varName name
  | «local» =>
      cases hread
      exact .localName name
  | call =>
      cases hread
      exact .callName name
  | _ =>
      cases hread

/-- A call has its arguments in a list, has one outside of a list, or has none. -/
theorem Makes.of_call (hread : ofPayload .call (.object members) = .ok node) :
    Makes .call (.object members) node := by
  simp only [ofPayload, bind_eq_ok_iff, argsField_eq, optional_eq_ok_iff, nameField_eq_ok_iff]
    at hread
  obtain ⟨args, hargs, name, hname, hnode⟩ := hread
  cases hnode
  obtain ⟨hnone, rfl⟩ | ⟨part, found, hfind, hfound, rfl⟩ := hargs
  · exact .callPlain hname hnone
  · unfold ofArguments at hfound
    split at hfound
    · exact .callEach hname hfind hfound
    · next hsingle =>
        obtain ⟨arg, harg, rfl⟩ := map_eq_ok_iff.mp hfound
        exact .callOne hname hfind hsingle harg

/-- What is read from fields is made of the parts that the fields hold. -/
theorem Makes.of_ofFields (hread : ofPayload keyword (.object members) = .ok node) :
    Makes keyword (.object members) node := by
  cases keyword with
  | call =>
      exact .of_call hread
  | var =>
      simp only [ofPayload, bind_eq_ok_iff, nameField_eq_ok_iff] at hread
      obtain ⟨name, hname, hnode⟩ := hread
      cases hnode
      exact .var hname
  | «local» =>
      simp only [ofPayload, bind_eq_ok_iff, nodeField_eq, nameField_eq_ok_iff,
        optional_eq_ok_iff] at hread
      obtain ⟨name, hname, value, hvalue, hnode⟩ := hread
      cases hnode
      obtain ⟨hnone, rfl⟩ | ⟨part, found, hfind, hfound, rfl⟩ := hvalue
      · exact .localPlain hname hnone
      · exact .localValue hname hfind hfound
  | set =>
      simp only [ofPayload, bind_eq_ok_iff, nodeField_eq, nameField_eq_ok_iff,
        required_eq_ok_iff] at hread
      obtain ⟨name, hname, value, ⟨part, hfind, hvalue⟩, hnode⟩ := hread
      cases hnode
      exact .set hname hfind hvalue
  | setLocal =>
      simp only [ofPayload, bind_eq_ok_iff, nodeField_eq, nameField_eq_ok_iff,
        required_eq_ok_iff] at hread
      obtain ⟨name, hname, value, ⟨part, hfind, hvalue⟩, hnode⟩ := hread
      cases hnode
      exact .setLocal hname hfind hvalue
  | «if» =>
      simp only [ofPayload, bind_eq_ok_iff, nodeField_eq, required_eq_ok_iff,
        optional_eq_ok_iff] at hread
      obtain ⟨_, ⟨_, hfindCondition, hcondition⟩, _, ⟨_, hfindThen, hthen⟩, _, helse, hnode⟩ :=
        hread
      cases hnode
      obtain ⟨hnone, rfl⟩ | ⟨part, found, hfind, hfound, rfl⟩ := helse
      · exact .branch hfindCondition hcondition hfindThen hthen hnone
      · exact .branchElse hfindCondition hcondition hfindThen hthen hfind hfound
  | «for» =>
      simp only [ofPayload, bind_eq_ok_iff, nodeField_eq, rangeField_eq, required_eq_ok_iff]
        at hread
      obtain ⟨_, ⟨range, hfindRange, hrange⟩, _, ⟨_, hfindCode, hcode⟩, hnode⟩ := hread
      cases hnode
      unfold ofRange at hrange
      split at hrange
      · simp only [bind_eq_ok_iff] at hrange
        obtain ⟨_, hinit, _, hcondition, _, hstep, htriple⟩ := hrange
        cases htriple
        exact .forLoop hfindRange hinit hcondition hstep hfindCode hcode
      · cases hrange
  | «while» =>
      simp only [ofPayload, bind_eq_ok_iff, nodeField_eq, required_eq_ok_iff] at hread
      obtain ⟨_, ⟨_, hfindCondition, hcondition⟩, _, ⟨_, hfindCode, hcode⟩, hnode⟩ := hread
      cases hnode
      exact .whileLoop hfindCondition hcondition hfindCode hcode
  | switch =>
      simp only [ofPayload, bind_eq_ok_iff, nodeField_eq, caseField_eq, required_eq_ok_iff]
        at hread
      obtain ⟨_, ⟨object, hfindCases, hcases⟩, _, ⟨_, hfindValue, hvalue⟩, hnode⟩ := hread
      cases hnode
      unfold ofCaseObject at hcases
      split at hcases
      · exact .switch hfindCases hcases hfindValue hvalue
      · cases hcases
  | define =>
      simp only [ofPayload, bind_eq_ok_iff, nodeField_eq, nameField_eq_ok_iff,
        required_eq_ok_iff] at hread
      obtain ⟨_, hparams, _, hname, _, ⟨_, hfind, hcode⟩, hnode⟩ := hread
      cases hnode
      exact .define hparams hname hfind hcode
  | _ =>
      cases hread

/-- What the reader makes of a payload is what the keyword makes of it. -/
theorem Makes.of_ofKeyword (hread : ofKeyword keyword payload = .ok node) :
    Makes keyword payload node := by
  have hpayload (hread : ofPayload keyword payload = .ok node) : Makes keyword payload node := by
    cases payload with
    | object members =>
        exact .of_ofFields hread
    | string name =>
        rw [ofPayload] at hread
        exact .of_ofShorthand hread
    | _ =>
        cases hread
  cases keyword with
  | «return» =>
      obtain ⟨value, hvalue, rfl⟩ := map_eq_ok_iff.mp hread
      exact .ret hvalue
  | imports =>
      obtain ⟨names, hnames, rfl⟩ := map_eq_ok_iff.mp hread
      exact .imports hnames
  | comment =>
      cases hread
      exact .comment payload
  | list =>
      cases payload with
      | array items =>
          obtain ⟨nodes, hnodes, rfl⟩ := map_eq_ok_iff.mp hread
          exact .list hnodes
      | _ =>
          cases hread
  | _ =>
      exact hpayload hread

/-- The reader makes of a payload what the keyword makes of it. -/
theorem Makes.ofKeyword_eq (hmakes : Makes keyword payload node) :
    ofKeyword keyword payload = .ok node := by
  cases hmakes with
  | varName | localName | callName | comment =>
      rfl
  | var hname =>
      simp only [ofKeyword, ofPayload, bind_eq_ok_iff, nameField_eq_ok_iff]
      exact ⟨_, hname, rfl⟩
  | localPlain hname hnone =>
      simp only [ofKeyword, ofPayload, bind_eq_ok_iff, nodeField_eq, nameField_eq_ok_iff,
        optional_eq_ok_iff]
      exact ⟨_, hname, _, .inl ⟨hnone, rfl⟩, rfl⟩
  | localValue hname hfind hvalue =>
      simp only [ofKeyword, ofPayload, bind_eq_ok_iff, nodeField_eq, nameField_eq_ok_iff,
        optional_eq_ok_iff]
      exact ⟨_, hname, _, .inr ⟨_, _, hfind, hvalue, rfl⟩, rfl⟩
  | set hname hfind hvalue | setLocal hname hfind hvalue =>
      simp only [ofKeyword, ofPayload, bind_eq_ok_iff, nodeField_eq, nameField_eq_ok_iff,
        required_eq_ok_iff]
      exact ⟨_, hname, _, ⟨_, hfind, hvalue⟩, rfl⟩
  | branch hfindCondition hcondition hfindThen hthen hnone =>
      simp only [ofKeyword, ofPayload, bind_eq_ok_iff, nodeField_eq, required_eq_ok_iff,
        optional_eq_ok_iff]
      exact ⟨_, ⟨_, hfindCondition, hcondition⟩, _, ⟨_, hfindThen, hthen⟩, _,
        .inl ⟨hnone, rfl⟩, rfl⟩
  | branchElse hfindCondition hcondition hfindThen hthen hfindElse helse =>
      simp only [ofKeyword, ofPayload, bind_eq_ok_iff, nodeField_eq, required_eq_ok_iff,
        optional_eq_ok_iff]
      exact ⟨_, ⟨_, hfindCondition, hcondition⟩, _, ⟨_, hfindThen, hthen⟩, _,
        .inr ⟨_, _, hfindElse, helse, rfl⟩, rfl⟩
  | forLoop hfindRange hinit hcondition hstep hfindCode hcode =>
      simp only [ofKeyword, ofPayload, bind_eq_ok_iff, nodeField_eq, rangeField_eq,
        required_eq_ok_iff]
      refine ⟨(_, _, _), ⟨_, hfindRange, ?_⟩, _, ⟨_, hfindCode, hcode⟩, rfl⟩
      simp only [ofRange, bind_eq_ok_iff]
      exact ⟨_, hinit, _, hcondition, _, hstep, rfl⟩
  | whileLoop hfindCondition hcondition hfindCode hcode =>
      simp only [ofKeyword, ofPayload, bind_eq_ok_iff, nodeField_eq, required_eq_ok_iff]
      exact ⟨_, ⟨_, hfindCondition, hcondition⟩, _, ⟨_, hfindCode, hcode⟩, rfl⟩
  | switch hfindCases hcases hfindValue hvalue =>
      simp only [ofKeyword, ofPayload, bind_eq_ok_iff, nodeField_eq, caseField_eq,
        required_eq_ok_iff]
      exact ⟨_, ⟨_, hfindCases, hcases⟩, _, ⟨_, hfindValue, hvalue⟩, rfl⟩
  | define hparams hname hfind hcode =>
      simp only [ofKeyword, ofPayload, bind_eq_ok_iff, nodeField_eq, nameField_eq_ok_iff,
        required_eq_ok_iff]
      exact ⟨_, hparams, _, hname, _, ⟨_, hfind, hcode⟩, rfl⟩
  | callPlain hname hnone =>
      simp only [ofKeyword, ofPayload, bind_eq_ok_iff, argsField_eq, nameField_eq_ok_iff,
        optional_eq_ok_iff]
      exact ⟨_, .inl ⟨hnone, rfl⟩, _, hname, rfl⟩
  | callEach hname hfind hargs =>
      simp only [ofKeyword, ofPayload, bind_eq_ok_iff, argsField_eq, nameField_eq_ok_iff,
        optional_eq_ok_iff]
      exact ⟨_, .inr ⟨_, _, hfind, hargs, rfl⟩, _, hname, rfl⟩
  | callOne hname hfind hsingle harg =>
      simp only [ofKeyword, ofPayload, bind_eq_ok_iff, argsField_eq, nameField_eq_ok_iff,
        optional_eq_ok_iff]
      refine ⟨_, .inr ⟨_, _, hfind, ?_, rfl⟩, _, hname, rfl⟩
      rw [ofArguments, map_eq_ok_iff]
      · exact ⟨_, harg, rfl⟩
      · exact hsingle
  | ret hvalue =>
      exact map_eq_ok_iff.mpr ⟨_, hvalue, rfl⟩
  | imports hnames =>
      exact map_eq_ok_iff.mpr ⟨_, hnames, rfl⟩
  | list hitems =>
      exact map_eq_ok_iff.mpr ⟨_, hitems, rfl⟩

/-- The tree that a document is read as, given the trees of the parts. -/
inductive ReadAs : Json → Node → Prop
  | literal {document : Json}
      (hscalar : document.IsScalar) :
      ReadAs document (.literal (Value.ofJson document))
  | block {items : List Json} {nodes : List Node}
      (hitems : ofItems items = .ok nodes) :
      ReadAs (.array items) (.block nodes)
  | operation {op : Operator} {key : String} {items : List Json} {operands : List Node}
      (hkey : op.Names key)
      (hitems : ofItems items = .ok operands)
      (hsome : items ≠ []) :
      ReadAs (.object [(key, .array items)]) (.operation op operands)
  | construct {keyword : Keyword} {key : String} {payload : Json} {node : Node}
      (hkey : keyword.Names key)
      (hmakes : Makes keyword payload node) :
      ReadAs (.object [(key, payload)]) node

theorem ReadAs.of_ofOperator {op : Operator} (hkey : op.Names key)
    (hread : ofOperator op payload = .ok node) :
    ReadAs (.object [(key, payload)]) node := by
  unfold ofOperator at hread
  split at hread
  · cases hread
  · next hsome =>
      obtain ⟨operands, hoperands, rfl⟩ := map_eq_ok_iff.mp hread
      exact .operation hkey hoperands hsome
  · cases hread

/-- The reader reads no more than the relation allows. -/
theorem ReadAs.of_ofJson (hread : ofJson document = .ok node) : ReadAs document node := by
  cases document with
  | array items =>
      rw [ofJson] at hread
      obtain ⟨nodes, hnodes, rfl⟩ := map_eq_ok_iff.mp hread
      exact .block hnodes
  | object members =>
      rw [ofJson] at hread
      rcases ofConstruct_cases members with
        ⟨op, key, payload, rfl, hkey⟩ | ⟨keyword, key, payload, rfl, hkey⟩ |
        ⟨key, hrefused⟩ | ⟨count, hrefused⟩
      · rw [ofConstruct_operator hkey] at hread
        exact .of_ofOperator hkey hread
      · rw [ofConstruct_keyword hkey] at hread
        exact .construct hkey (.of_ofKeyword hread)
      · rw [hrefused] at hread
        cases hread
      · rw [hrefused] at hread
        cases hread
  | _ =>
      cases hread
      exact .literal trivial

/-- The reader reads all that the relation allows. -/
theorem ReadAs.ofJson_eq (hread : ReadAs document node) : ofJson document = .ok node := by
  cases hread with
  | literal hscalar =>
      cases document with
      | array items =>
          cases hscalar
      | object members =>
          cases hscalar
      | _ =>
          rfl
  | block hitems =>
      rw [ofJson]
      exact map_eq_ok_iff.mpr ⟨_, hitems, rfl⟩
  | operation hkey hitems hsome =>
      rw [ofJson, ofConstruct_operator hkey, ofOperator]
      · exact map_eq_ok_iff.mpr ⟨_, hitems, rfl⟩
      · exact hsome
  | construct hkey hmakes =>
      rw [ofJson, ofConstruct_keyword hkey]
      exact hmakes.ofKeyword_eq

/-- Reading goes one level deep as `ReadAs` says, and in no other way. -/
theorem ofJson_eq_ok_iff : ofJson document = .ok node ↔ ReadAs document node :=
  ⟨.of_ofJson, ReadAs.ofJson_eq⟩

/-- What lies directly within a tree that a keyword makes has been read from a part. -/
theorem Makes.exists_part (hmakes : Makes keyword payload node) (hkey : keyword.Names key)
    {child : Node} (hchild : child ∈ node.children) :
    ∃ part, IsPart part (.object [(key, payload)]) ∧ ofJson part = .ok child := by
  cases hmakes with
  | localValue _ hfind hvalue | set _ hfind hvalue | setLocal _ hfind hvalue =>
      cases List.mem_singleton.mp hchild
      exact ⟨_, .field hkey (by simp [Keyword.nodeFields]) hfind, hvalue⟩
  | branch hfindCondition hcondition hfindThen hthen _ =>
      simp only [children, parts, Option.toList_none, List.mem_cons, List.not_mem_nil, or_false]
        at hchild
      rcases hchild with rfl | rfl
      · exact ⟨_, .field hkey (by simp [Keyword.nodeFields]) hfindCondition, hcondition⟩
      · exact ⟨_, .field hkey (by simp [Keyword.nodeFields]) hfindThen, hthen⟩
  | branchElse hfindCondition hcondition hfindThen hthen hfindElse helse =>
      simp only [children, parts, Option.toList_some, List.mem_cons, List.not_mem_nil, or_false]
        at hchild
      rcases hchild with rfl | rfl | rfl
      · exact ⟨_, .field hkey (by simp [Keyword.nodeFields]) hfindCondition, hcondition⟩
      · exact ⟨_, .field hkey (by simp [Keyword.nodeFields]) hfindThen, hthen⟩
      · exact ⟨_, .field hkey (by simp [Keyword.nodeFields]) hfindElse, helse⟩
  | forLoop hfindRange hinit hcondition hstep hfindCode hcode =>
      simp only [children, parts, List.mem_cons, List.not_mem_nil, or_false] at hchild
      rcases hchild with rfl | rfl | rfl | rfl
      · exact ⟨_, .range hkey hfindRange (by simp), hinit⟩
      · exact ⟨_, .range hkey hfindRange (by simp), hcondition⟩
      · exact ⟨_, .range hkey hfindRange (by simp), hstep⟩
      · exact ⟨_, .field hkey (by simp [Keyword.nodeFields]) hfindCode, hcode⟩
  | whileLoop hfindCondition hcondition hfindCode hcode =>
      simp only [children, parts, List.mem_cons, List.not_mem_nil, or_false] at hchild
      rcases hchild with rfl | rfl
      · exact ⟨_, .field hkey (by simp [Keyword.nodeFields]) hfindCondition, hcondition⟩
      · exact ⟨_, .field hkey (by simp [Keyword.nodeFields]) hfindCode, hcode⟩
  | switch hfindCases hcases hfindValue hvalue =>
      simp only [children, parts, List.mem_cons, List.mem_map] at hchild
      rcases hchild with rfl | ⟨tree, htree, rfl⟩
      · exact ⟨_, .field hkey (by simp [Keyword.nodeFields]) hfindValue, hvalue⟩
      · obtain ⟨item, hitem, hread⟩ := (exists_case_of_ofCases hcases).2 tree htree
        exact ⟨item, .case hkey hfindCases hitem, hread⟩
  | define _ _ hfind hcode =>
      cases List.mem_singleton.mp hchild
      exact ⟨_, .field hkey (by simp [Keyword.nodeFields]) hfind, hcode⟩
  | callEach _ hfind hargs =>
      obtain ⟨item, hitem, hread⟩ := exists_item_of_ofItems hargs hchild
      exact ⟨item, .argument hkey hfind hitem, hread⟩
  | callOne _ hfind hsingle harg =>
      cases List.mem_singleton.mp hchild
      exact ⟨_, .oneArgument hkey hfind hsingle, harg⟩
  | ret hvalue =>
      cases List.mem_singleton.mp hchild
      exact ⟨_, .returned hkey, hvalue⟩
  | list hitems =>
      obtain ⟨item, hitem, hread⟩ := exists_item_of_ofItems hitems hchild
      exact ⟨item, .item hkey hitem, hread⟩
  | _ =>
      cases hchild

/-- What lies directly within a tree that is read has been read from a part of the document. -/
theorem exists_part_of_read (hread : ofJson document = .ok node)
    {child : Node} (hchild : child ∈ node.children) :
    ∃ part, IsPart part document ∧ ofJson part = .ok child := by
  cases ofJson_eq_ok_iff.mp hread with
  | literal _ =>
      cases hchild
  | block hitems =>
      obtain ⟨item, hitem, hread⟩ := exists_item_of_ofItems hitems hchild
      exact ⟨item, .statement hitem, hread⟩
  | operation hkey hitems _ =>
      obtain ⟨item, hitem, hread⟩ := exists_item_of_ofItems hitems hchild
      exact ⟨item, .operand hkey hitem, hread⟩
  | construct hkey hmakes =>
      exact hmakes.exists_part hkey hchild

end Node

section Below

variable {part document : Json} {field : String} {members : List (String × Json)}

/-- A document that lies in another one, at any depth but the first. -/
def Json.IsBelow : Json → Json → Prop :=
  Relation.TransGen fun child document => child ∈ document.children

theorem Json.isBelow_of_find (hfind : Table.find field members = some part) :
    Json.IsBelow part (.object members) := by
  apply Relation.TransGen.single
  exact List.mem_map.mpr ⟨(field, part), Table.mem_of_find hfind, rfl⟩

theorem Json.isBelow_payload {key : String} (payload : Json) :
    Json.IsBelow payload (.object [(key, payload)]) :=
  .single (List.mem_singleton_self payload)

theorem Json.isBelow_item {item : Json} {items : List Json} (hitem : item ∈ items) :
    Json.IsBelow item (.array items) :=
  .single hitem

theorem Json.isBelow_member {name : String} {item : Json} (hmember : (name, item) ∈ members) :
    Json.IsBelow item (.object members) :=
  .single (List.mem_map.mpr ⟨(name, item), hmember, rfl⟩)

/-- A part of a construct lies below its document, within the payload. -/
theorem IsPart.isBelow (hpart : IsPart part document) : Json.IsBelow part document := by
  cases hpart with
  | statement hitem =>
      exact Json.isBelow_item hitem
  | operand _ hitem =>
      exact (Json.isBelow_item hitem).trans (Json.isBelow_payload _)
  | field _ _ hfind =>
      exact (Json.isBelow_of_find hfind).trans (Json.isBelow_payload _)
  | range _ hfind hitem =>
      exact ((Json.isBelow_item hitem).trans (Json.isBelow_of_find hfind)).trans
        (Json.isBelow_payload _)
  | case _ hfind hcase =>
      exact ((Json.isBelow_member hcase).trans (Json.isBelow_of_find hfind)).trans
        (Json.isBelow_payload _)
  | argument _ hfind hitem =>
      exact ((Json.isBelow_item hitem).trans (Json.isBelow_of_find hfind)).trans
        (Json.isBelow_payload _)
  | oneArgument _ hfind _ =>
      exact (Json.isBelow_of_find hfind).trans (Json.isBelow_payload _)
  | returned _ =>
      exact Json.isBelow_payload _
  | item _ hitem =>
      exact (Json.isBelow_item hitem).trans (Json.isBelow_payload _)

theorem Json.sizeOf_lt_of_mem_children {child : Json} (hchild : child ∈ document.children) :
    sizeOf child < sizeOf document := by
  cases document with
  | array items =>
      exact Json.sizeOf_lt_array hchild
  | object members =>
      obtain ⟨member, hmember, rfl⟩ := List.mem_map.mp hchild
      exact Json.sizeOf_lt_object hmember
  | _ =>
      cases hchild

theorem Json.IsBelow.sizeOf_lt (hbelow : Json.IsBelow part document) :
    sizeOf part < sizeOf document := by
  induction hbelow with
  | single hchild =>
      exact Json.sizeOf_lt_of_mem_children hchild
  | tail _ hchild ih =>
      exact Nat.lt_trans ih (Json.sizeOf_lt_of_mem_children hchild)

/-- What holds everywhere in a document holds everywhere below it. -/
theorem Json.IsBelow.everywhere {J : Json → Prop} (hbelow : Json.IsBelow part document)
    (hdocument : Everywhere Json.children J document) :
    Everywhere Json.children J part := by
  induction hbelow with
  | single hchild =>
      exact hdocument.of_mem hchild
  | tail _ hchild ih =>
      exact ih (hdocument.of_mem hchild)

/--
A property that a tree has whenever it is read from a document of some kind holds
everywhere in a tree that is read, if the document is of that kind everywhere.
-/
theorem Node.everywhere_of_read {J : Json → Prop} {P : Node → Prop} {node : Node}
    (hlocal : ∀ document node, Everywhere Json.children J document →
      Node.ofJson document = .ok node → P node)
    (hdocument : Everywhere Json.children J document)
    (hread : Node.ofJson document = .ok node) :
    Everywhere Node.children P node := by
  induction document using Json.induction_on_size generalizing node with
  | step document ih =>
      refine .intro (hlocal document node hdocument hread) ?_
      intro child hchild
      obtain ⟨part, hpart, hpartRead⟩ := Node.exists_part_of_read hread hchild
      have hbelow := hpart.isBelow
      exact ih part hbelow.sizeOf_lt (hbelow.everywhere hdocument) hpartRead

end Below

section Regular

/-- A scalar, whose number passes a test if it is one. -/
def Value.IsScalar (test : Float → Prop) : Value → Prop
  | .null | .boolean _ | .string _ => True
  | .number x => test x
  | .list _ | .map _ | .function _ => False

/-- A literal is a scalar, and an operation has an operand. -/
def Node.Regular (test : Float → Prop) : Node → Prop
  | .literal value => value.IsScalar test
  | .operation _ operands => operands ≠ []
  | _ => True

/-- A number, if it is one, passes a test. -/
def Json.NumberPasses (test : Float → Prop) : Json → Prop
  | .number n => test n.toFloat
  | _ => True

variable {test : Float → Prop} {document : Json} {node : Node}

theorem Json.IsScalar.isScalar_ofJson (hscalar : document.IsScalar)
    (hnumber : document.NumberPasses test) :
    (Value.ofJson document).IsScalar test := by
  cases document with
  | number n =>
      exact hnumber
  | array items =>
      cases hscalar
  | object members =>
      cases hscalar
  | _ =>
      trivial

/-- What a keyword makes is no literal and no operation, so nothing is asked of it. -/
theorem Node.Makes.regular {keyword : Keyword} {payload : Json}
    (hmakes : Node.Makes keyword payload node) : node.Regular test := by
  cases hmakes <;> trivial

/-- A tree that is read has literals that are scalars, and operations with operands. -/
theorem Node.regular_of_read
    (hnumbers : Everywhere Json.children (Json.NumberPasses test) document)
    (hread : Node.ofJson document = .ok node) :
    Everywhere Node.children (Node.Regular test) node := by
  refine Node.everywhere_of_read ?_ hnumbers hread
  intro document node hnumbers hread
  cases Node.ofJson_eq_ok_iff.mp hread with
  | literal hscalar =>
      exact hscalar.isScalar_ofJson hnumbers.here
  | block _ =>
      trivial
  | operation _ hitems hsome =>
      exact Node.ofItems_ne_nil hitems hsome
  | construct _ hmakes =>
      exact hmakes.regular

end Regular

end DocScript
