import DocScript.Proofs.Refusals
import Mathlib.Logic.Relation

/-!
# The grammar of program documents

`IsNode` and `IsPayload` say which documents are program trees, with no reference to
the reader.

**Results.**
* `reads_iff_isNode`: the documents that are read are those of the grammar. From the
  grammar to the reader the induction is on the derivation, back it is on the size
  of the document.
* `IsNode.of_isWithin`: what stands at a node position of a program tree, at any
  depth, is a program tree.
* `ofJson_accepts_grammar`: so one malformed part makes the whole document malformed.
-/

namespace DocScript

mutual

/-- The documents of program trees. -/
inductive IsNode : Json → Prop
  | null :
      IsNode .null
  | boolean (value : Bool) :
      IsNode (.bool value)
  | number (value : Json.Number) :
      IsNode (.number value)
  | string (value : String) :
      IsNode (.string value)
  | block {items : List Json}
      (hitems : ∀ item ∈ items, IsNode item) :
      IsNode (.array items)
  | operation {op : Operator} {key : String} {items : List Json}
      (hkey : op.Names key)
      (hsome : items ≠ [])
      (hitems : ∀ item ∈ items, IsNode item) :
      IsNode (.object [(key, .array items)])
  | construct {keyword : Keyword} {key : String} {payload : Json}
      (hkey : keyword.Names key)
      (hpayload : IsPayload keyword payload) :
      IsNode (.object [(key, payload)])

/-- The payloads that a keyword takes. Fields that are not mentioned may hold anything. -/
inductive IsPayload : Keyword → Json → Prop
  | varName (name : String) :
      IsPayload .var (.string name)
  | var {members : List (String × Json)}
      (hname : HasName members) :
      IsPayload .var (.object members)
  | localName (name : String) :
      IsPayload .local (.string name)
  | localVar {members : List (String × Json)}
      (hname : HasName members)
      (hvalue : ∀ value, Table.find "value" members = some value → IsNode value) :
      IsPayload .local (.object members)
  | set {members : List (String × Json)} {value : Json}
      (hname : HasName members)
      (hfind : Table.find "value" members = some value)
      (hvalue : IsNode value) :
      IsPayload .set (.object members)
  | setLocal {members : List (String × Json)} {value : Json}
      (hname : HasName members)
      (hfind : Table.find "value" members = some value)
      (hvalue : IsNode value) :
      IsPayload .setLocal (.object members)
  | branch {members : List (String × Json)} {condition thenBranch : Json}
      (hfindCondition : Table.find "condition" members = some condition)
      (hcondition : IsNode condition)
      (hfindThen : Table.find "then" members = some thenBranch)
      (hthen : IsNode thenBranch)
      (helse : ∀ elseBranch, Table.find "else" members = some elseBranch → IsNode elseBranch) :
      IsPayload .if (.object members)
  | forLoop {members : List (String × Json)} {init condition step code : Json}
      (hfindRange : Table.find "range" members = some (.array [init, condition, step]))
      (hinit : IsNode init)
      (hcondition : IsNode condition)
      (hstep : IsNode step)
      (hfindCode : Table.find "code" members = some code)
      (hcode : IsNode code) :
      IsPayload .for (.object members)
  | whileLoop {members : List (String × Json)} {condition code : Json}
      (hfindCondition : Table.find "condition" members = some condition)
      (hcondition : IsNode condition)
      (hfindCode : Table.find "code" members = some code)
      (hcode : IsNode code) :
      IsPayload .while (.object members)
  | switch {members cases : List (String × Json)} {value : Json}
      (hfindCases : Table.find "case" members = some (.object cases))
      (hcases : ∀ case ∈ cases, IsNode case.2)
      (hfindValue : Table.find "value" members = some value)
      (hvalue : IsNode value) :
      IsPayload .switch (.object members)
  | define {members : List (String × Json)} {code : Json}
      (hargs : ∀ args, Table.find "args" members = some args → IsNames args)
      (hname : HasName members)
      (hfind : Table.find "code" members = some code)
      (hcode : IsNode code) :
      IsPayload .define (.object members)
  | callName (name : String) :
      IsPayload .call (.string name)
  | callPlain {members : List (String × Json)}
      (hname : HasName members)
      (hfind : Table.find "args" members = none) :
      IsPayload .call (.object members)
  | callEach {members : List (String × Json)} {items : List Json}
      (hname : HasName members)
      (hfind : Table.find "args" members = some (.array items))
      (hitems : ∀ item ∈ items, IsNode item) :
      IsPayload .call (.object members)
  | callOne {members : List (String × Json)} {argument : Json}
      (hname : HasName members)
      (hfind : Table.find "args" members = some argument)
      (hsingle : ∀ items, argument ≠ .array items)
      (hargument : IsNode argument) :
      IsPayload .call (.object members)
  | ret {payload : Json}
      (hvalue : IsNode payload) :
      IsPayload .return payload
  | imports {payload : Json}
      (hreferences : IsNames payload) :
      IsPayload .imports payload
  | list {items : List Json}
      (hitems : ∀ item ∈ items, IsNode item) :
      IsPayload .list (.array items)
  | comment (payload : Json) :
      IsPayload .comment payload

end

section Accepted

open Node

mutual

/-- What the grammar allows is read, by induction on its derivation. -/
theorem IsNode.reads : ∀ {document : Json}, IsNode document → Reads (ofJson document)
  | _, .null =>
      reads_ok _
  | _, .boolean _ =>
      reads_ok _
  | _, .number _ =>
      reads_ok _
  | _, .string _ =>
      reads_ok _
  | _, .block hitems => by
      rw [ofJson, reads_map, reads_ofItems]
      intro item hitem
      exact (hitems item hitem).reads
  | _, .operation hkey hsome hitems => by
      rw [ofJson, ofConstruct_operator hkey, reads_ofOperator]
      exact ⟨_, rfl, hsome, fun item hitem => (hitems item hitem).reads⟩
  | _, .construct hkey hpayload => by
      rw [ofJson, ofConstruct_keyword hkey]
      exact hpayload.reads

theorem IsPayload.reads :
    ∀ {keyword : Keyword} {payload : Json}, IsPayload keyword payload →
      Reads (ofKeyword keyword payload)
  | _, _, .varName _ =>
      reads_ok _
  | _, _, .var hname =>
      reads_var.mpr hname
  | _, _, .localName _ =>
      reads_ok _
  | _, _, .localVar hname hvalue =>
      reads_local.mpr ⟨hname, fun value hfind => (hvalue value hfind).reads⟩
  | _, _, .set hname hfind hvalue =>
      reads_set.mpr ⟨hname, _, hfind, hvalue.reads⟩
  | _, _, .setLocal hname hfind hvalue =>
      reads_setLocal.mpr ⟨hname, _, hfind, hvalue.reads⟩
  | _, _, .branch hfindCondition hcondition hfindThen hthen helse =>
      reads_if.mpr ⟨⟨_, hfindCondition, hcondition.reads⟩, ⟨_, hfindThen, hthen.reads⟩,
        fun elseBranch hfind => (helse elseBranch hfind).reads⟩
  | _, _, .forLoop hfindRange hinit hcondition hstep hfindCode hcode => by
      have hrange := reads_ofRange_triple.mpr ⟨hinit.reads, hcondition.reads, hstep.reads⟩
      exact reads_for.mpr ⟨⟨_, hfindRange, hrange⟩, _, hfindCode, hcode.reads⟩
  | _, _, .whileLoop hfindCondition hcondition hfindCode hcode =>
      reads_while.mpr ⟨⟨_, hfindCondition, hcondition.reads⟩, _, hfindCode, hcode.reads⟩
  | _, _, .switch hfindCases hcases hfindValue hvalue => by
      have hobject := reads_ofCases.mpr fun case hcase => (hcases case hcase).reads
      exact reads_switch.mpr ⟨⟨_, hfindCases, hobject⟩, _, hfindValue, hvalue.reads⟩
  | _, _, .define hargs hname hfind hcode =>
      reads_define.mpr ⟨hargs, hname, _, hfind, hcode.reads⟩
  | _, _, .callName _ =>
      reads_ok _
  | _, _, .callPlain hname hfind => by
      refine reads_call.mpr ⟨?_, hname⟩
      intro args hargs
      rw [hfind] at hargs
      cases hargs
  | _, _, .callEach hname hfind hitems => by
      refine reads_call.mpr ⟨?_, hname⟩
      intro args hargs
      rw [hfind] at hargs
      cases hargs
      exact reads_ofItems.mpr fun item hitem => (hitems item hitem).reads
  | _, _, .callOne hname hfind hsingle hargument => by
      refine reads_call.mpr ⟨?_, hname⟩
      intro args hargs
      rw [hfind] at hargs
      cases hargs
      rw [ofArguments, reads_map]
      · exact hargument.reads
      · exact hsingle
  | _, _, .ret hvalue =>
      reads_map.mpr hvalue.reads
  | _, _, .imports hreferences =>
      reads_map.mpr (reads_references.mpr hreferences)
  | _, _, .list hitems =>
      reads_map.mpr (reads_ofItems.mpr fun item hitem => (hitems item hitem).reads)
  | _, _, .comment _ =>
      reads_ok _

end

end Accepted

section Grammatical

open Node

variable {keyword : Keyword} {payload : Json} {members : List (String × Json)}

/-- The constructs that a name may stand for are those that the grammar lists. -/
theorem IsPayload.of_reads_shorthand {name : String}
    (hreads : Reads (ofShorthand keyword name)) :
    IsPayload keyword (.string name) := by
  cases keyword with
  | var =>
      exact .varName name
  | «local» =>
      exact .localName name
  | call =>
      exact .callName name
  | _ =>
      exact absurd hreads (not_reads_error _)

theorem IsPayload.of_reads_call
    (hparts : ∀ part, sizeOf part < sizeOf members → Reads (ofJson part) → IsNode part)
    (hreads : Reads (ofPayload .call (.object members))) :
    IsPayload .call (.object members) := by
  obtain ⟨hargs, hname⟩ := reads_call.mp hreads
  cases hfind : Table.find "args" members with
  | none =>
      exact .callPlain hname hfind
  | some args =>
      have hsize := Table.sizeOf_lt_of_find hfind
      have hread := hargs args hfind
      unfold ofArguments at hread
      split at hread
      · next items =>
          refine .callEach hname hfind ?_
          intro item hitem
          have hitemSize := Json.sizeOf_lt_array hitem
          exact hparts item (by omega) (reads_ofItems.mp hread item hitem)
      · next hsingle =>
          exact .callOne hname hfind hsingle (hparts args hsize (reads_map.mp hread))

/--
A list of members that is read as the fields of a keyword is in the grammar, if the
smaller documents that are read are.
-/
theorem IsPayload.of_reads_fields
    (hparts : ∀ part, sizeOf part < sizeOf members → Reads (ofJson part) → IsNode part)
    (hreads : Reads (ofPayload keyword (.object members))) :
    IsPayload keyword (.object members) := by
  have hpart : ∀ field part, Table.find field members = some part →
      Reads (ofJson part) → IsNode part := by
    intro field part hfind
    exact hparts part (Table.sizeOf_lt_of_find hfind)
  cases keyword with
  | var =>
      exact .var (reads_var.mp hreads)
  | «local» =>
      obtain ⟨hname, hvalue⟩ := reads_local.mp hreads
      refine .localVar hname ?_
      intro value hfind
      exact hpart _ value hfind (hvalue value hfind)
  | set =>
      obtain ⟨hname, value, hfind, hvalue⟩ := reads_set.mp hreads
      exact .set hname hfind (hpart _ value hfind hvalue)
  | setLocal =>
      obtain ⟨hname, value, hfind, hvalue⟩ := reads_setLocal.mp hreads
      exact .setLocal hname hfind (hpart _ value hfind hvalue)
  | «if» =>
      obtain ⟨⟨condition, hfindCondition, hcondition⟩, ⟨thenBranch, hfindThen, hthen⟩, helse⟩ :=
        reads_if.mp hreads
      refine .branch hfindCondition (hpart _ condition hfindCondition hcondition)
        hfindThen (hpart _ thenBranch hfindThen hthen) ?_
      intro elseBranch hfind
      exact hpart _ elseBranch hfind (helse elseBranch hfind)
  | «for» =>
      obtain ⟨⟨range, hfindRange, hrange⟩, code, hfindCode, hcode⟩ := reads_for.mp hreads
      have hsize := Table.sizeOf_lt_of_find hfindRange
      unfold ofRange at hrange
      split at hrange
      · next init condition step =>
          obtain ⟨hinit, hcondition, hstep⟩ := reads_ofRange_triple.mp hrange
          simp only [Json.array.sizeOf_spec, List.cons.sizeOf_spec] at hsize
          exact .forLoop hfindRange (hparts init (by omega) hinit)
            (hparts condition (by omega) hcondition) (hparts step (by omega) hstep)
            hfindCode (hpart _ code hfindCode hcode)
      · exact absurd hrange (not_reads_error _)
  | «while» =>
      obtain ⟨⟨condition, hfindCondition, hcondition⟩, code, hfindCode, hcode⟩ :=
        reads_while.mp hreads
      exact .whileLoop hfindCondition (hpart _ condition hfindCondition hcondition)
        hfindCode (hpart _ code hfindCode hcode)
  | switch =>
      obtain ⟨⟨object, hfindCases, hobject⟩, value, hfindValue, hvalue⟩ :=
        reads_switch.mp hreads
      have hsize := Table.sizeOf_lt_of_find hfindCases
      unfold ofCaseObject at hobject
      split at hobject
      · next cases =>
          refine .switch hfindCases ?_ hfindValue (hpart _ value hfindValue hvalue)
          intro case hcase
          have hcaseSize := Json.sizeOf_lt_object hcase
          exact hparts case.2 (by omega) (reads_ofCases.mp hobject case hcase)
      · exact absurd hobject (not_reads_error _)
  | define =>
      obtain ⟨hargs, hname, code, hfind, hcode⟩ := reads_define.mp hreads
      exact .define hargs hname hfind (hpart _ code hfind hcode)
  | call =>
      exact .of_reads_call hparts hreads
  | _ =>
      exact absurd hreads (not_reads_error _)

/-- A payload that is read is allowed, as its parts are. -/
theorem IsPayload.of_reads
    (hparts : ∀ part, sizeOf part ≤ sizeOf payload → Reads (ofJson part) → IsNode part)
    (hreads : Reads (ofKeyword keyword payload)) :
    IsPayload keyword payload := by
  have hpayload (hreads : Reads (ofPayload keyword payload)) : IsPayload keyword payload := by
    cases payload with
    | object members =>
        refine .of_reads_fields ?_ hreads
        intro part hsize
        apply hparts
        rw [Json.object.sizeOf_spec]
        omega
    | string name =>
        rw [ofPayload] at hreads
        exact .of_reads_shorthand hreads
    | _ =>
        exact absurd hreads (not_reads_error _)
  cases keyword with
  | «return» =>
      exact .ret (hparts payload (Nat.le_refl _) (reads_map.mp hreads))
  | imports =>
      exact .imports (reads_references.mp (reads_map.mp hreads))
  | comment =>
      exact .comment payload
  | list =>
      cases payload with
      | array items =>
          refine .list ?_
          intro item hitem
          have hsize := Json.sizeOf_lt_array hitem
          exact hparts item (by omega) (reads_ofItems.mp (reads_map.mp hreads) item hitem)
      | _ =>
          exact absurd hreads (not_reads_error _)
  | _ =>
      exact hpayload hreads

/-- What is read is allowed, by induction on the size of the document. -/
theorem isNode_of_reads (document : Json) (hreads : Reads (ofJson document)) :
    IsNode document := by
  -- The parts of a document lie up to four levels below it, so the induction is on its size.
  induction document using Json.induction_on_size with
  | step document ih =>
      cases document with
      | null =>
          exact .null
      | bool value =>
          exact .boolean value
      | number value =>
          exact .number value
      | string value =>
          exact .string value
      | array items =>
          rw [ofJson, reads_map, reads_ofItems] at hreads
          refine .block ?_
          intro item hitem
          exact ih item (Json.sizeOf_lt_array hitem) (hreads item hitem)
      | object members =>
          rw [ofJson] at hreads
          rcases ofConstruct_cases members with
            ⟨op, key, payload, rfl, hkey⟩ | ⟨keyword, key, payload, rfl, hkey⟩ |
            ⟨key, hrefused⟩ | ⟨count, hrefused⟩
          · rw [ofConstruct_operator hkey, reads_ofOperator] at hreads
            obtain ⟨items, rfl, hsome, hitems⟩ := hreads
            refine .operation hkey hsome ?_
            intro item hitem
            have hsize := Json.sizeOf_lt_array hitem
            have hpayload := Json.sizeOf_lt_object (List.mem_singleton_self (key, Json.array items))
            exact ih item (by omega) (hitems item hitem)
          · rw [ofConstruct_keyword hkey] at hreads
            refine .construct hkey (.of_reads ?_ hreads)
            intro part hsize
            have hpayload := Json.sizeOf_lt_object (List.mem_singleton_self (key, payload))
            exact ih part (by omega)
          · rw [hrefused] at hreads
            exact absurd hreads (not_reads_error _)
          · rw [hrefused] at hreads
            exact absurd hreads (not_reads_error _)

/-- The documents that are read are those of the grammar. -/
theorem reads_iff_isNode (document : Json) :
    Reads (ofJson document) ↔ IsNode document :=
  ⟨isNode_of_reads document, IsNode.reads⟩

end Grammatical

section Parts

variable {keyword : Keyword} {op : Operator} {key : String} {payload part document : Json}
variable {members : List (String × Json)}

/-- The fields of a keyword that hold one node each. -/
def Keyword.nodeFields : Keyword → List String
  | .local | .set | .setLocal | .switch => ["value"]
  | .if => ["condition", "then", "else"]
  | .for | .define => ["code"]
  | .while => ["condition", "code"]
  | .var | .call | .return | .imports | .list | .comment => []

/-- The documents that stand at a node position directly inside another one. -/
inductive IsPart : Json → Json → Prop
  | statement {item : Json} {items : List Json}
      (hitem : item ∈ items) :
      IsPart item (.array items)
  | operand {op : Operator} {key : String} {item : Json} {items : List Json}
      (hkey : op.Names key)
      (hitem : item ∈ items) :
      IsPart item (.object [(key, .array items)])
  | field {keyword : Keyword} {key field : String} {part : Json} {members : List (String × Json)}
      (hkey : keyword.Names key)
      (hfield : field ∈ keyword.nodeFields)
      (hfind : Table.find field members = some part) :
      IsPart part (.object [(key, .object members)])
  | range {key : String} {item : Json} {items : List Json} {members : List (String × Json)}
      (hkey : Keyword.for.Names key)
      (hfind : Table.find "range" members = some (.array items))
      (hitem : item ∈ items) :
      IsPart item (.object [(key, .object members)])
  | case {key name : String} {item : Json} {members cases : List (String × Json)}
      (hkey : Keyword.switch.Names key)
      (hfind : Table.find "case" members = some (.object cases))
      (hcase : (name, item) ∈ cases) :
      IsPart item (.object [(key, .object members)])
  | argument {key : String} {item : Json} {items : List Json} {members : List (String × Json)}
      (hkey : Keyword.call.Names key)
      (hfind : Table.find "args" members = some (.array items))
      (hitem : item ∈ items) :
      IsPart item (.object [(key, .object members)])
  | oneArgument {key : String} {argument : Json} {members : List (String × Json)}
      (hkey : Keyword.call.Names key)
      (hfind : Table.find "args" members = some argument)
      (hsingle : ∀ items, argument ≠ .array items) :
      IsPart argument (.object [(key, .object members)])
  | returned {key : String} {payload : Json}
      (hkey : Keyword.return.Names key) :
      IsPart payload (.object [(key, payload)])
  | item {key : String} {item : Json} {items : List Json}
      (hkey : Keyword.list.Names key)
      (hitem : item ∈ items) :
      IsPart item (.object [(key, .array items)])

/-- A document and those at node positions inside it, at any depth. -/
def IsWithin : Json → Json → Prop :=
  Relation.ReflTransGen IsPart

theorem Keyword.Names.isPayload (hkey : keyword.Names key)
    (hdocument : IsNode (.object [(key, payload)])) :
    IsPayload keyword payload := by
  cases hdocument with
  | operation hop _ _ =>
      have hnone := hkey.operator_eq_none
      rw [Operator.ofName?_eq_some_iff.mpr hop] at hnone
      cases hnone
  | construct hother hpayload =>
      have hsame := Keyword.ofName?_eq_some_iff.mpr hkey
      rw [Keyword.ofName?_eq_some_iff.mpr hother] at hsame
      cases hsame
      exact hpayload

/-- The operands of an operation that the grammar allows are allowed themselves. -/
theorem Operator.Names.isNode_of_mem {items : List Json} {item : Json} (hkey : op.Names key)
    (hdocument : IsNode (.object [(key, .array items)]))
    (hitem : item ∈ items) :
    IsNode item := by
  cases hdocument with
  | operation _ _ hitems =>
      exact hitems item hitem
  | construct hother _ =>
      have hnone := hother.operator_eq_none
      rw [Operator.ofName?_eq_some_iff.mpr hkey] at hnone
      cases hnone

theorem IsPayload.isNode_of_find {field : String}
    (hpayload : IsPayload keyword (.object members))
    (hfield : field ∈ keyword.nodeFields)
    (hfind : Table.find field members = some part) :
    IsNode part := by
  -- A field is found once, so the part is the one that the grammar speaks of.
  have hsame {found : Json} (hfound : Table.find field members = some found)
      (hnode : IsNode found) : IsNode part := by
    rw [hfound] at hfind
    cases hfind
    exact hnode
  cases hpayload with
  | localVar _ hvalue =>
      cases List.mem_singleton.mp hfield
      exact hvalue part hfind
  | set _ hfound hvalue =>
      cases List.mem_singleton.mp hfield
      exact hsame hfound hvalue
  | setLocal _ hfound hvalue =>
      cases List.mem_singleton.mp hfield
      exact hsame hfound hvalue
  | branch hfoundCondition hcondition hfoundThen hthen helse =>
      simp only [Keyword.nodeFields, List.mem_cons, List.not_mem_nil, or_false] at hfield
      rcases hfield with rfl | rfl | rfl
      · exact hsame hfoundCondition hcondition
      · exact hsame hfoundThen hthen
      · exact helse part hfind
  | forLoop _ _ _ _ hfound hcode =>
      cases List.mem_singleton.mp hfield
      exact hsame hfound hcode
  | whileLoop hfoundCondition hcondition hfoundCode hcode =>
      simp only [Keyword.nodeFields, List.mem_cons, List.not_mem_nil, or_false] at hfield
      rcases hfield with rfl | rfl
      · exact hsame hfoundCondition hcondition
      · exact hsame hfoundCode hcode
  | switch _ _ hfound hvalue =>
      cases List.mem_singleton.mp hfield
      exact hsame hfound hvalue
  | define _ _ hfound hcode =>
      cases List.mem_singleton.mp hfield
      exact hsame hfound hcode
  | _ =>
      cases hfield

/-- A part of an allowed document is allowed itself. -/
theorem IsNode.of_isPart (hdocument : IsNode document) (hpart : IsPart part document) :
    IsNode part := by
  cases hpart with
  | statement hitem =>
      cases hdocument with
      | block hitems =>
          exact hitems part hitem
  | operand hkey hitem =>
      exact hkey.isNode_of_mem hdocument hitem
  | field hkey hfield hfind =>
      exact (hkey.isPayload hdocument).isNode_of_find hfield hfind
  | range hkey hfind hitem =>
      cases hkey.isPayload hdocument with
      | forLoop hfound hinit hcondition hstep _ _ =>
          rw [hfound] at hfind
          cases hfind
          simp only [List.mem_cons, List.not_mem_nil, or_false] at hitem
          rcases hitem with rfl | rfl | rfl
          · exact hinit
          · exact hcondition
          · exact hstep
  | case hkey hfind hcase =>
      cases hkey.isPayload hdocument with
      | switch hfound hcases _ _ =>
          rw [hfound] at hfind
          cases hfind
          exact hcases _ hcase
  | argument hkey hfind hitem =>
      cases hkey.isPayload hdocument with
      | callPlain _ hfound =>
          rw [hfound] at hfind
          cases hfind
      | callEach _ hfound hitems =>
          rw [hfound] at hfind
          cases hfind
          exact hitems part hitem
      | callOne _ hfound hsingle _ =>
          rw [hfound] at hfind
          cases hfind
          exact absurd rfl (hsingle _)
  | oneArgument hkey hfind hsingle =>
      cases hkey.isPayload hdocument with
      | callPlain _ hfound =>
          rw [hfound] at hfind
          cases hfind
      | callEach _ hfound _ =>
          rw [hfound] at hfind
          cases hfind
          exact absurd rfl (hsingle _)
      | callOne _ hfound _ hargument =>
          rw [hfound] at hfind
          cases hfind
          exact hargument
  | returned hkey =>
      cases hkey.isPayload hdocument with
      | ret hvalue =>
          exact hvalue
  | item hkey hitem =>
      cases hkey.isPayload hdocument with
      | list hitems =>
          exact hitems part hitem

/-- What stands at a node position of a program tree, at any depth, is a program tree. -/
theorem IsNode.of_isWithin (hdocument : IsNode document) (hwithin : IsWithin part document) :
    IsNode part := by
  induction hwithin with
  | refl =>
      exact hdocument
  | tail _ hpart ih =>
      exact ih (hdocument.of_isPart hpart)

end Parts

/--
The reader accepts the documents of the grammar and no others. What it refuses it
refuses for the shape of a construct or for an unknown key; and it refuses every
document that has, at a node position of any depth, a part that it refuses.
-/
theorem ofJson_accepts_grammar (document : Json) :
    ((∃ node, Node.ofJson document = .ok node) ↔ IsNode document) ∧
    (∀ refusal, Node.ofJson document = .error refusal →
      (∃ construct defect, refusal = .shape construct defect) ∨
      (∃ key, refusal = .unknown key)) ∧
    (∀ part refusal, IsWithin part document → Node.ofJson part = .error refusal →
      ∃ refusal, Node.ofJson document = .error refusal) := by
  refine ⟨reads_iff_isNode document, ?_, ?_⟩
  · intro refusal hrefused
    cases refusal with
    | shape construct defect =>
        exact .inl ⟨construct, defect, rfl⟩
    | unknown key =>
        exact .inr ⟨key, rfl⟩
    | notJson fault =>
        exact absurd hrefused (Node.structural_ofJson document fault)
  · intro part refusal hwithin hrefused
    cases hread : Node.ofJson document with
    | error refusal =>
        exact ⟨refusal, rfl⟩
    | ok node =>
        have hdocument := (reads_iff_isNode document).mp ⟨node, hread⟩
        have hpart := (hdocument.of_isWithin hwithin).reads
        rw [hrefused] at hpart
        exact absurd hpart (not_reads_error refusal)

/-- A loop whose step is a sum of no operands. -/
def Json.emptySumLoop : Json :=
  .object [("for", .object
    [("range", .array [.null, .bool true, .object [("+", .array [])]]),
      ("code", .object [("ignore", .null)])])]

/-- A function that runs the loop, with a field that functions do not have. -/
def Json.emptySumFunction : Json :=
  .object [("function", .object
    [("name", .string "f"), ("args", .array [.string "n"]), ("remark", .object []),
      ("code", .array [Json.emptySumLoop])])]

theorem ofJson_accepts_grammar_emptySum :
    IsWithin (.object [("+", .array [])]) Json.emptySumFunction ∧
    ¬ IsNode Json.emptySumFunction ∧
    ∃ refusal, Node.ofJson Json.emptySumFunction = .error refusal := by
  have hstep : IsPart (.object [("+", .array [])]) Json.emptySumLoop :=
    .range (.inl rfl) rfl (by simp)
  have hcode : IsPart (.array [Json.emptySumLoop]) Json.emptySumFunction :=
    .field (Or.inr rfl : Keyword.define.Names "function") (List.mem_singleton_self "code") rfl
  have hwithin : IsWithin (.object [("+", .array [])]) Json.emptySumFunction :=
    .tail (.tail (.single hstep) (.statement (List.mem_singleton_self _))) hcode
  obtain ⟨hiff, -, hparts⟩ := ofJson_accepts_grammar Json.emptySumFunction
  obtain ⟨refusal, hrefused⟩ := hparts _ _ hwithin rfl
  refine ⟨hwithin, ?_, refusal, hrefused⟩
  intro hnode
  obtain ⟨node, hread⟩ := hiff.mpr hnode
  rw [hread] at hrefused
  cases hrefused

end DocScript
