import DocScript.Json.Reader
import DocScript.Node.Malformed
import DocScript.Table

/-!
# From documents to program trees

A scalar is a literal, a list is a block, and an object has one member whose name
says what its value is the payload of. A tree is checked as a whole while it is
built: one malformed part at any depth makes the document malformed. Of several
defects the first in the order of reading is reported, where the parts of a
construct are read in a fixed order and the cases of a `switch` in the order of
their names. Fields that a construct does not have are ignored.
-/

namespace DocScript
namespace Node

/-- The names of a list of strings. -/
def strings? : List Json → Option (List String)
  | [] => some []
  | .string s :: rest => (strings? rest).map (s :: ·)
  | _ :: _ => none

/-- The units that an import refers to: one, or a list of them. -/
def references : Json → Except Malformed (List String)
  | .string reference => .ok [reference]
  | .array items =>
      match strings? items with
      | some references => .ok references
      | none => .error (.shape (.keyword .imports) .referenceNotString)
  | _ => .error (.shape (.keyword .imports) .notListOrString)

/-- The parameters of a function: none given, one name for all, or a list of names. -/
def params : Option Json → Except Malformed Params
  | none => .ok (.variadic Params.defaultName)
  | some (.string name) => .ok (.variadic name)
  | some (.array items) =>
      match strings? items with
      | some names => .ok (.fixed names)
      | none => .error (.shape (.keyword .define) .parameterNotString)
  | some _ => .error (.shape (.keyword .define) .argsNotNames)

/-- The field that gives the name of a construct. -/
def nameField (keyword : Keyword) (members : List (String × Json)) : Except Malformed String :=
  match Table.find "name" members with
  | none => .error (.shape (.keyword keyword) (.missingField "name"))
  | some (.string name) => .ok name
  | some _ => .error (.shape (.keyword keyword) .nameNotString)

/-- A part that must be there. -/
def required {α : Type} (keyword : Keyword) (field : String) :
    Option (Except Malformed α) → Except Malformed α
  | none => .error (.shape (.keyword keyword) (.missingField field))
  | some part => part

/-- A part that may be left out. -/
def optional {α : Type} : Option (Except Malformed α) → Except Malformed (Option α)
  | none => .ok none
  | some part => part.map some

/-- What is wrong with a payload that is neither an object nor a shorthand. -/
def payloadDefect : Keyword → Defect
  | .var | .local | .call => .notObjectOrString
  | _ => .notObject

/-- The construct that a string alone stands for. -/
def ofShorthand (keyword : Keyword) (s : String) : Except Malformed Node :=
  match keyword with
  | .var => .ok (.var s)
  | .local => .ok (.localVar s none)
  | .call => .ok (.call s [])
  | _ => .error (.shape (.keyword keyword) (payloadDefect keyword))

mutual

/-- The tree that a document stands for. -/
def ofJson : Json → Except Malformed Node
  | .array items => (ofItems items).map .block
  | .object members => ofConstruct members
  | scalar => .ok (.literal (Value.ofJson scalar))

/-- The tree of an object with given members, of which there must be one. -/
def ofConstruct : List (String × Json) → Except Malformed Node
  | [(key, payload)] =>
      match Operator.ofName? key with
      | some op =>
          match payload with
          | .array [] => .error (.shape (.operator op) .noOperand)
          | .array items => (ofItems items).map (.operation op)
          | _ => .error (.shape (.operator op) .notList)
      | none =>
          match Keyword.ofName? key with
          | none => .error (.unknown key)
          | some .return => (ofJson payload).map .ret
          | some .imports => (references payload).map .imports
          | some .comment => .ok .comment
          | some .list =>
              match payload with
              | .array items => (ofItems items).map .list
              | _ => .error (.shape (.keyword .list) .notList)
          | some keyword => ofPayload keyword payload
  | members => .error (.shape .node (.notOneKeyword members.length))

/-- The construct whose parts are the fields of an object, or that a string stands for. -/
def ofPayload (keyword : Keyword) : Json → Except Malformed Node
  | .object members =>
      match keyword with
      | .var => do
          return .var (← nameField .var members)
      | .local => do
          let name ← nameField .local members
          return .localVar name (← optional (nodeField "value" members))
      | .set => do
          let name ← nameField .set members
          return .set name (← required .set "value" (nodeField "value" members))
      | .setLocal => do
          let name ← nameField .setLocal members
          return .setLocal name (← required .setLocal "value" (nodeField "value" members))
      | .if => do
          let condition ← required .if "condition" (nodeField "condition" members)
          let thenBranch ← required .if "then" (nodeField "then" members)
          return .branch condition thenBranch (← optional (nodeField "else" members))
      | .for => do
          let (init, condition, step) ← required .for "range" (rangeField members)
          return .forLoop init condition step (← required .for "code" (nodeField "code" members))
      | .while => do
          let condition ← required .while "condition" (nodeField "condition" members)
          return .whileLoop condition (← required .while "code" (nodeField "code" members))
      | .switch => do
          let cases ← required .switch "case" (caseField members)
          return .switch (← required .switch "value" (nodeField "value" members)) cases
      | .define => do
          let params ← params (Table.find "args" members)
          let name ← nameField .define members
          return .define name params (← required .define "code" (nodeField "code" members))
      | .call => do
          let args ← optional (argsField members)
          return .call (← nameField .call members) (args.getD [])
      | _ => .error (.shape (.keyword keyword) (payloadDefect keyword))
  | .string s => ofShorthand keyword s
  | _ => .error (.shape (.keyword keyword) (payloadDefect keyword))

/-- The trees of a list of documents. -/
def ofItems : List Json → Except Malformed (List Node)
  | [] => .ok []
  | item :: rest => do
      let node ← ofJson item
      return node :: (← ofItems rest)

/-- The trees of the cases of a `switch`. -/
def ofCases : List (String × Json) → Except Malformed (List (String × Node))
  | [] => .ok []
  | (key, item) :: rest => do
      let node ← ofJson item
      return (key, node) :: (← ofCases rest)

/-- The tree in a given field, if the field is there. -/
def nodeField (field : String) : List (String × Json) → Option (Except Malformed Node)
  | [] => none
  | (name, item) :: rest =>
      if name = field then some (ofJson item) else nodeField field rest

/-- The three trees in the field `range`, if the field is there. -/
def rangeField : List (String × Json) → Option (Except Malformed (Node × Node × Node))
  | [] => none
  | (name, item) :: rest =>
      if name = "range" then
        match item with
        | .array [init, condition, step] => some do
            let init ← ofJson init
            let condition ← ofJson condition
            return (init, condition, ← ofJson step)
        | _ => some (.error (.shape (.keyword .for) .rangeNotTriple))
      else rangeField rest

/-- The cases in the field `case`, if the field is there. -/
def caseField : List (String × Json) → Option (Except Malformed (List (String × Node)))
  | [] => none
  | (name, item) :: rest =>
      if name = "case" then
        match item with
        | .object cases => some (ofCases cases)
        | _ => some (.error (.shape (.keyword .switch) .caseNotObject))
      else caseField rest

/-- The arguments in the field `args`, if the field is there: one, or a list of them. -/
def argsField : List (String × Json) → Option (Except Malformed (List Node))
  | [] => none
  | (name, item) :: rest =>
      if name = "args" then
        match item with
        | .array items => some (ofItems items)
        | single => some ((ofJson single).map ([·]))
      else argsField rest

end

/-- The tree that a text stands for. -/
def read (text : String) : Except Malformed Node :=
  match Json.read text with
  | .ok document => ofJson document
  | .error fault => .error (.notJson fault)

end Node
end DocScript
