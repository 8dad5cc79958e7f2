import DocScript.Proofs.ReadTrees

/-!
# Writing trees and reading them back

`Node.toJson` writes a tree in one way: operators by their signs, keywords by their
names, parameters and arguments as lists, the fields of a construct in the order of
their names.

**Results.**
* `Node.ofJson_toJson`: what is written is read back as the same tree.
* `Written.everywhere_toJson`: what is written is a document that a text can hold. Its
  objects list their members in order if the cases of each `switch` are in order.
* `ofJson_inverts_toJson`: trees that are read are among those that are read back.
-/

namespace DocScript

/-- A scalar as a document. Other values are no literals, and null stands for them. -/
def Value.toJson : Value → Json
  | .boolean b => .bool b
  | .number x => .number (.real x)
  | .string s => .string s
  | _ => .null

theorem Value.isScalar_toJson (value : Value) : value.toJson.IsScalar := by
  cases value <;> trivial

/-- A scalar is read back as it was written. -/
theorem Value.ofJson_toJson {value : Value} {test : Float → Prop}
    (hscalar : value.IsScalar test) : Value.ofJson value.toJson = value := by
  cases value with
  | list items =>
      cases hscalar
  | map entries =>
      cases hscalar
  | function name =>
      cases hscalar
  | _ =>
      rfl

/-- Parameters as a document. -/
def Params.toJson : Params → Json
  | .fixed names => .array (names.map .string)
  | .variadic name => .string name

/-- The document of a construct with a given payload. -/
def Keyword.toJson (keyword : Keyword) (payload : Json) : Json :=
  .object [(keyword.name, payload)]

namespace Node

mutual

/-- A tree as a document. -/
def toJson : Node → Json
  | .literal value => value.toJson
  | .block statements => .array (toItems statements)
  | .var name => Keyword.toJson .var (.string name)
  | .localVar name none => Keyword.toJson .local (.string name)
  | .localVar name (some value) =>
      Keyword.toJson .local (.object [("name", .string name), ("value", toJson value)])
  | .set name value =>
      Keyword.toJson .set (.object [("name", .string name), ("value", toJson value)])
  | .setLocal name value =>
      Keyword.toJson .setLocal (.object [("name", .string name), ("value", toJson value)])
  | .branch condition thenBranch none =>
      Keyword.toJson .if
        (.object [("condition", toJson condition), ("then", toJson thenBranch)])
  | .branch condition thenBranch (some elseBranch) =>
      Keyword.toJson .if
        (.object [("condition", toJson condition), ("else", toJson elseBranch),
          ("then", toJson thenBranch)])
  | .forLoop init condition step code =>
      Keyword.toJson .for
        (.object [("code", toJson code),
          ("range", .array [toJson init, toJson condition, toJson step])])
  | .whileLoop condition code =>
      Keyword.toJson .while (.object [("code", toJson code), ("condition", toJson condition)])
  | .switch value cases =>
      Keyword.toJson .switch (.object [("case", .object (toCases cases)), ("value", toJson value)])
  | .define name params code =>
      Keyword.toJson .define
        (.object [("args", params.toJson), ("code", toJson code), ("name", .string name)])
  | .call name args =>
      Keyword.toJson .call (.object [("args", .array (toItems args)), ("name", .string name)])
  | .ret value => Keyword.toJson .return (toJson value)
  | .imports references => Keyword.toJson .imports (.array (references.map .string))
  | .list items => Keyword.toJson .list (.array (toItems items))
  | .operation op operands => .object [(op.sign, .array (toItems operands))]
  | .comment => Keyword.toJson .comment .null

/-- Trees as documents, one by one. -/
def toItems : List Node → List Json
  | [] => []
  | node :: rest => toJson node :: toItems rest

/-- The cases of a `switch` as documents, one by one. -/
def toCases : List (String × Node) → List (String × Json)
  | [] => []
  | (name, node) :: rest => (name, toJson node) :: toCases rest

end

theorem toItems_eq_map (nodes : List Node) : toItems nodes = nodes.map toJson := by
  induction nodes with
  | nil =>
      rfl
  | cons node rest ih =>
      rw [toItems, List.map_cons, ih]

theorem toCases_eq_map (cases : List (String × Node)) :
    toCases cases = cases.map fun case => (case.1, case.2.toJson) := by
  induction cases with
  | nil =>
      rfl
  | cons case rest ih =>
      rw [toCases, List.map_cons, ih]

section ReadBack

/-- Trees that are read back one by one are read back as a list. -/
theorem ofItems_toItems {nodes : List Node}
    (hnodes : ∀ node ∈ nodes, ofJson node.toJson = .ok node) :
    ofItems (toItems nodes) = .ok nodes := by
  induction nodes with
  | nil =>
      rfl
  | cons node rest ih =>
      rw [List.forall_mem_cons] at hnodes
      rw [toItems, ofItems, hnodes.1, ih hnodes.2]
      rfl

theorem ofCases_toCases {cases : List (String × Node)}
    (hcases : ∀ case ∈ cases, ofJson case.2.toJson = .ok case.2) :
    ofCases (toCases cases) = .ok cases := by
  induction cases with
  | nil =>
      rfl
  | cons case rest ih =>
      rw [List.forall_mem_cons] at hcases
      rw [toCases, ofCases, hcases.1, ih hcases.2]
      rfl

/-- Parameters are read back, those of a fixed number and the one for all arguments. -/
theorem params_toJson (parameters : Params) :
    params (some parameters.toJson) = .ok parameters := by
  cases parameters with
  | fixed names =>
      rw [Params.toJson, params, strings?_eq_some_iff.mpr rfl]
  | variadic name =>
      rfl

theorem references_map (names : List String) :
    references (.array (names.map .string)) = .ok names := by
  rw [references, strings?_eq_some_iff.mpr rfl]

/-- The document of a construct is read as what its keyword makes of the payload. -/
theorem ReadAs.toJson_keyword {keyword : Keyword} {payload : Json} {node : Node}
    (hmakes : Makes keyword payload node) :
    ReadAs (keyword.toJson payload) node :=
  .construct (.inl rfl) hmakes

/-- A tree whose parts are read back is read back. -/
theorem ReadAs.toJson {test : Float → Prop} {node : Node} (hregular : node.Regular test)
    (hchildren : ∀ child ∈ node.children, ofJson child.toJson = .ok child) :
    ReadAs node.toJson node := by
  cases node with
  | literal value =>
      have hread := ReadAs.literal value.isScalar_toJson
      rw [Value.ofJson_toJson hregular] at hread
      exact hread
  | block statements =>
      rw [Node.toJson]
      exact .block (ofItems_toItems hchildren)
  | var name =>
      exact .toJson_keyword (.varName name)
  | localVar name value =>
      cases value with
      | none =>
          exact .toJson_keyword (.localName name)
      | some value =>
          have hvalue := hchildren value (List.mem_singleton_self value)
          exact .toJson_keyword (.localValue rfl rfl hvalue)
  | set name value =>
      have hvalue := hchildren value (List.mem_singleton_self value)
      exact .toJson_keyword (.set rfl rfl hvalue)
  | setLocal name value =>
      have hvalue := hchildren value (List.mem_singleton_self value)
      exact .toJson_keyword (.setLocal rfl rfl hvalue)
  | branch condition thenBranch elseBranch =>
      have hcondition := hchildren condition (by simp [children, parts])
      have hthen := hchildren thenBranch (by simp [children, parts])
      cases elseBranch with
      | none =>
          exact .toJson_keyword (.branch rfl hcondition rfl hthen rfl)
      | some elseBranch =>
          have helse := hchildren elseBranch (by simp [children, parts])
          exact .toJson_keyword (.branchElse rfl hcondition rfl hthen rfl helse)
  | forLoop init condition step code =>
      have hinit := hchildren init (by simp [children, parts])
      have hcondition := hchildren condition (by simp [children, parts])
      have hstep := hchildren step (by simp [children, parts])
      have hcode := hchildren code (by simp [children, parts])
      exact .toJson_keyword (.forLoop rfl hinit hcondition hstep rfl hcode)
  | whileLoop condition code =>
      have hcondition := hchildren condition (by simp [children, parts])
      have hcode := hchildren code (by simp [children, parts])
      exact .toJson_keyword (.whileLoop rfl hcondition rfl hcode)
  | switch value cases =>
      have hvalue := hchildren value (by simp [children, parts])
      have hcases : ∀ case ∈ cases, ofJson case.2.toJson = .ok case.2 := by
        intro case hcase
        apply hchildren
        exact List.mem_cons_of_mem value (List.mem_map_of_mem hcase)
      exact .toJson_keyword (.switch rfl (ofCases_toCases hcases) rfl hvalue)
  | define name parameters code =>
      have hcode := hchildren code (List.mem_singleton_self code)
      exact .toJson_keyword (.define (params_toJson parameters) rfl rfl hcode)
  | call name args =>
      exact .toJson_keyword (.callEach rfl rfl (ofItems_toItems hchildren))
  | ret value =>
      have hvalue := hchildren value (List.mem_singleton_self value)
      exact .toJson_keyword (.ret hvalue)
  | imports names =>
      exact .toJson_keyword (.imports (references_map names))
  | list items =>
      exact .toJson_keyword (.list (ofItems_toItems hchildren))
  | operation op operands =>
      refine .operation (.inl rfl) (ofItems_toItems hchildren) ?_
      rw [toItems_eq_map]
      exact fun hnil => hregular (List.map_eq_nil_iff.mp hnil)
  | comment =>
      exact .toJson_keyword (.comment .null)

/-- What is written is read back as the same tree. -/
theorem ofJson_toJson {test : Float → Prop} {node : Node}
    (hregular : Everywhere Node.children (Node.Regular test) node) :
    ofJson node.toJson = .ok node := by
  induction hregular with
  | intro here _ ih =>
      exact ofJson_eq_ok_iff.mpr (.toJson here ih)

end ReadBack

end Node

/-- Names in increasing order, so that none occurs twice. -/
def InOrder {α : Type} (entries : List (String × α)) : Prop :=
  (entries.map Prod.fst).Pairwise (· < ·)

/-- An object lists its members in the order of their names. -/
def Json.MembersInOrder : Json → Prop
  | .object members => InOrder members
  | _ => True

/-- A `switch` lists its cases in the order of their names. -/
def Node.CasesInOrder : Node → Prop
  | .switch _ cases => InOrder cases
  | _ => True

/-- What is asked of a property of documents, to hold of those that trees are written as. -/
structure Written (J : Json → Prop) (P : Node → Prop) : Prop where
  literal : ∀ value, P (.literal value) → J value.toJson
  null : J .null
  string : ∀ s, J (.string s)
  array : ∀ items, J (.array items)
  fields : ∀ members, InOrder members → J (.object members)
  cases : ∀ value cases, P (.switch value cases) → J (.object (Node.toCases cases))

namespace Written

variable {J : Json → Prop} {P : Node → Prop} (h : Written J P)

include h

theorem everywhere_string (s : String) : Everywhere Json.children J (.string s) :=
  .leaf (h.string s) rfl

theorem everywhere_names (names : List String) :
    Everywhere Json.children J (.array (names.map .string)) := by
  refine .intro (h.array _) ?_
  intro item hitem
  obtain ⟨name, _, rfl⟩ := List.mem_map.mp hitem
  exact h.everywhere_string name

theorem everywhere_items {nodes : List Node}
    (hnodes : ∀ node ∈ nodes, Everywhere Json.children J node.toJson) :
    Everywhere Json.children J (.array (Node.toItems nodes)) := by
  refine .intro (h.array _) ?_
  intro item hitem
  rw [Json.children, Node.toItems_eq_map] at hitem
  obtain ⟨node, hnode, rfl⟩ := List.mem_map.mp hitem
  exact hnodes node hnode

theorem everywhere_cases {value : Node} {cases : List (String × Node)}
    (hswitch : P (.switch value cases))
    (hcases : ∀ case ∈ cases, Everywhere Json.children J case.2.toJson) :
    Everywhere Json.children J (.object (Node.toCases cases)) := by
  refine Json.everywhere_object (h.cases value cases hswitch) ?_
  intro member hmember
  rw [Node.toCases_eq_map] at hmember
  obtain ⟨case, hcase, rfl⟩ := List.mem_map.mp hmember
  exact hcases case hcase

/-- Fields are written in the order of their names, so the object may be part of a document. -/
theorem everywhere_fields (names : List String) {members : List (String × Json)}
    (hnames : members.map Prod.fst = names)
    (horder : names.Pairwise (· < ·))
    (hmembers : ∀ member ∈ members, Everywhere Json.children J member.2) :
    Everywhere Json.children J (.object members) := by
  refine Json.everywhere_object (h.fields members ?_) hmembers
  rw [InOrder, hnames]
  exact horder

/-- A name and a value are the fields of all constructs that set a variable. -/
theorem everywhere_binding (name : String) {value : Json}
    (hvalue : Everywhere Json.children J value) :
    Everywhere Json.children J (.object [("name", .string name), ("value", value)]) := by
  refine h.everywhere_fields ["name", "value"] rfl (by decide) ?_
  simp only [List.forall_mem_cons]
  exact ⟨h.everywhere_string name, hvalue, List.forall_mem_nil _⟩

/-- An object with one member has it in order. -/
theorem everywhere_keyword (keyword : Keyword) {payload : Json}
    (hpayload : Everywhere Json.children J payload) :
    Everywhere Json.children J (keyword.toJson payload) := by
  refine h.everywhere_fields [keyword.name] rfl (List.pairwise_singleton _ _) ?_
  intro member hmember
  rw [List.mem_singleton.mp hmember]
  exact hpayload

/-- The document of a tree has a property everywhere, if the tree has what it takes. -/
theorem everywhere_toJson {node : Node} (hnode : Everywhere Node.children P node) :
    Everywhere Json.children J node.toJson := by
  induction hnode with
  | @intro node here _ ih =>
      cases node with
      | literal value =>
          refine .intro (h.literal value here) ?_
          intro child hchild
          cases value <;> cases hchild
      | block statements =>
          rw [Node.toJson]
          exact h.everywhere_items ih
      | var name =>
          exact h.everywhere_keyword .var (h.everywhere_string name)
      | localVar name value =>
          cases value with
          | none =>
              exact h.everywhere_keyword .local (h.everywhere_string name)
          | some value =>
              have hvalue := ih value (List.mem_singleton_self value)
              exact h.everywhere_keyword .local (h.everywhere_binding name hvalue)
      | set name value =>
          have hvalue := ih value (List.mem_singleton_self value)
          exact h.everywhere_keyword .set (h.everywhere_binding name hvalue)
      | setLocal name value =>
          have hvalue := ih value (List.mem_singleton_self value)
          exact h.everywhere_keyword .setLocal (h.everywhere_binding name hvalue)
      | branch condition thenBranch elseBranch =>
          have hcondition := ih condition (by simp [Node.children, Node.parts])
          have hthen := ih thenBranch (by simp [Node.children, Node.parts])
          cases elseBranch with
          | none =>
              refine h.everywhere_keyword .if
                (h.everywhere_fields ["condition", "then"] rfl (by decide) ?_)
              simp only [List.forall_mem_cons]
              exact ⟨hcondition, hthen, List.forall_mem_nil _⟩
          | some elseBranch =>
              have helse := ih elseBranch (by simp [Node.children, Node.parts])
              refine h.everywhere_keyword .if
                (h.everywhere_fields ["condition", "else", "then"] rfl (by decide) ?_)
              simp only [List.forall_mem_cons]
              exact ⟨hcondition, helse, hthen, List.forall_mem_nil _⟩
      | forLoop init condition step code =>
          have hrange :
              Everywhere Json.children J (.array (Node.toItems [init, condition, step])) := by
            apply h.everywhere_items
            intro node hnode
            exact ih node (List.mem_append_left [code] hnode)
          have hcode := ih code (by simp [Node.children, Node.parts])
          refine h.everywhere_keyword .for
            (h.everywhere_fields ["code", "range"] rfl (by decide) ?_)
          simp only [List.forall_mem_cons]
          exact ⟨hcode, hrange, List.forall_mem_nil _⟩
      | whileLoop condition code =>
          have hcondition := ih condition (by simp [Node.children, Node.parts])
          have hcode := ih code (by simp [Node.children, Node.parts])
          refine h.everywhere_keyword .while
            (h.everywhere_fields ["code", "condition"] rfl (by decide) ?_)
          simp only [List.forall_mem_cons]
          exact ⟨hcode, hcondition, List.forall_mem_nil _⟩
      | switch value cases =>
          have hvalue := ih value List.mem_cons_self
          have hcases : Everywhere Json.children J (.object (Node.toCases cases)) := by
            apply h.everywhere_cases here
            intro case hcase
            apply ih
            exact List.mem_cons_of_mem value (List.mem_map_of_mem hcase)
          refine h.everywhere_keyword .switch
            (h.everywhere_fields ["case", "value"] rfl (by decide) ?_)
          simp only [List.forall_mem_cons]
          exact ⟨hcases, hvalue, List.forall_mem_nil _⟩
      | define name parameters code =>
          have hcode := ih code (List.mem_singleton_self code)
          have hparams : Everywhere Json.children J parameters.toJson := by
            cases parameters with
            | fixed names =>
                exact h.everywhere_names names
            | variadic name =>
                exact h.everywhere_string name
          refine h.everywhere_keyword .define
            (h.everywhere_fields ["args", "code", "name"] rfl (by decide) ?_)
          simp only [List.forall_mem_cons]
          exact ⟨hparams, hcode, h.everywhere_string name, List.forall_mem_nil _⟩
      | call name args =>
          refine h.everywhere_keyword .call
            (h.everywhere_fields ["args", "name"] rfl (by decide) ?_)
          simp only [List.forall_mem_cons]
          exact ⟨h.everywhere_items ih, h.everywhere_string name, List.forall_mem_nil _⟩
      | ret value =>
          exact h.everywhere_keyword .return (ih value (List.mem_singleton_self value))
      | imports names =>
          exact h.everywhere_keyword .imports (h.everywhere_names names)
      | list items =>
          exact h.everywhere_keyword .list (h.everywhere_items ih)
      | operation op operands =>
          refine h.everywhere_fields [op.sign] rfl (List.pairwise_singleton _ _) ?_
          intro member hmember
          rw [List.mem_singleton.mp hmember]
          exact h.everywhere_items ih
      | comment =>
          exact h.everywhere_keyword .comment (.leaf h.null rfl)

end Written

/-- Numbers that a document can hold. -/
def FiniteNumber (x : Float) : Prop :=
  x.isFinite = true

/-- Numbers are written as they are. -/
theorem written_numberPasses (test : Float → Prop) :
    Written (Json.NumberPasses test) (Node.Regular test) where
  literal value hscalar := by
    cases value with
    | number x =>
        exact hscalar
    | _ =>
        trivial
  null := trivial
  string _ := trivial
  array _ := trivial
  fields _ _ := trivial
  cases _ _ _ := trivial

/-- The only members that the tree has a say in are the cases of a `switch`. -/
theorem written_membersInOrder : Written Json.MembersInOrder Node.CasesInOrder where
  literal value _ := by
    cases value <;> trivial
  null := trivial
  string _ := trivial
  array _ := trivial
  fields _ horder := horder
  cases value cases horder := by
    rw [Json.MembersInOrder, InOrder, Node.toCases_eq_map, List.map_map]
    exact horder

/-- The cases of a `switch` come in the order of the members that they are read from. -/
theorem Node.Makes.casesInOrder {keyword : Keyword} {payload : Json} {node : Node}
    (hmakes : Node.Makes keyword payload node)
    (hpayload : Everywhere Json.children Json.MembersInOrder payload) :
    node.CasesInOrder := by
  cases hmakes with
  | switch hfindCases hcases _ _ =>
      have horder := ((Json.isBelow_of_find hfindCases).everywhere hpayload).here
      rw [Node.CasesInOrder, InOrder, (Node.exists_case_of_ofCases hcases).1]
      exact horder
  | _ =>
      trivial

/-- A document with all members in order is read as a tree with all cases in order. -/
theorem Node.casesInOrder_of_read {document : Json} {node : Node}
    (hdocument : Everywhere Json.children Json.MembersInOrder document)
    (hread : Node.ofJson document = .ok node) :
    Everywhere Node.children Node.CasesInOrder node := by
  refine Node.everywhere_of_read ?_ hdocument hread
  intro document node hdocument hread
  cases Node.ofJson_eq_ok_iff.mp hread with
  | construct _ hmakes =>
      exact hmakes.casesInOrder ((Json.isBelow_payload _).everywhere hdocument)
  | _ =>
      trivial

/--
Reading undoes writing. A tree of scalar literals with finite numbers, whose
operations have operands, is written as a document that holds finite numbers only,
with its members in order if its cases are, and that is read as the same tree. And
every document of finite numbers that is read at all is read as such a tree.
-/
theorem ofJson_inverts_toJson :
    (∀ node : Node, Everywhere Node.children (Node.Regular FiniteNumber) node →
      Node.ofJson node.toJson = .ok node ∧
      Everywhere Json.children (Json.NumberPasses FiniteNumber) node.toJson ∧
      (Everywhere Node.children Node.CasesInOrder node →
        Everywhere Json.children Json.MembersInOrder node.toJson)) ∧
    (∀ (document : Json) (node : Node),
      Everywhere Json.children (Json.NumberPasses FiniteNumber) document →
      Node.ofJson document = .ok node →
      Everywhere Node.children (Node.Regular FiniteNumber) node ∧
      Node.ofJson node.toJson = .ok node ∧
      (Everywhere Json.children Json.MembersInOrder document →
        Everywhere Node.children Node.CasesInOrder node)) := by
  constructor
  · intro node hregular
    exact ⟨Node.ofJson_toJson hregular,
      (written_numberPasses FiniteNumber).everywhere_toJson hregular,
      written_membersInOrder.everywhere_toJson⟩
  · intro document node hnumbers hread
    have hregular := Node.regular_of_read hnumbers hread
    exact ⟨hregular, Node.ofJson_toJson hregular,
      fun horder => Node.casesInOrder_of_read horder hread⟩

/-- A call with one argument that is not in a list: a sum under the word for it. -/
def Json.callOfSum : Json :=
  .object [("call", .object
    [("args", .object [("add", .array [.number (.real 2.5), .bool true])]),
      ("name", .string "f")])]

/-- The tree of the call. -/
def Node.callOfSum : Node :=
  .call "f" [.operation .add [.literal (.number 2.5), .literal (.boolean true)]]

theorem ofJson_inverts_toJson_callOfSum :
    Node.ofJson Json.callOfSum = .ok Node.callOfSum ∧
    Node.ofJson Node.callOfSum.toJson = .ok Node.callOfSum ∧
    Everywhere Json.children (Json.NumberPasses FiniteNumber) Node.callOfSum.toJson := by
  have hfinite : (2.5 : Float).isFinite = true := by
    decide
  have hnumbers : Everywhere Json.children (Json.NumberPasses FiniteNumber) Json.callOfSum := by
    refine Json.everywhere_object trivial (List.forall_mem_singleton.mpr ?_)
    refine Json.everywhere_object trivial ?_
    simp only [List.forall_mem_cons]
    refine ⟨Json.everywhere_object trivial (List.forall_mem_singleton.mpr ?_),
      .leaf trivial rfl, List.forall_mem_nil _⟩
    refine .intro trivial ?_
    simp only [Json.children, List.forall_mem_cons]
    exact ⟨.leaf hfinite rfl, .leaf trivial rfl, List.forall_mem_nil _⟩
  obtain ⟨hwritten, hread⟩ := ofJson_inverts_toJson
  obtain ⟨hregular, hback, -⟩ := hread Json.callOfSum Node.callOfSum hnumbers rfl
  exact ⟨rfl, hback, (hwritten Node.callOfSum hregular).2.1⟩

end DocScript
