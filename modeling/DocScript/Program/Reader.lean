import DocScript.Node.Reader

/-!
# From documents to units

The document of a unit is an object. All of its fields may be left out, and
fields other than the four of a unit are ignored.
-/

namespace DocScript
namespace Program

/-- The name of a unit. -/
def nameOf : Option Json → Except Malformed String
  | none => .ok defaultName
  | some (.string name) => .ok name
  | some _ => .error (.shape .program .programNameNotString)

/-- The initial values of global variables. -/
def globalsOf : Option Json → Except Malformed (List (String × Value))
  | none => .ok []
  | some (.object members) => .ok (Value.ofMembers members)
  | some _ => .error (.shape .globals .notObject)

/-- The units to import. -/
def importsOf : Option Json → Except Malformed (List String)
  | none => .ok []
  | some payload => Node.references payload

/-- The statements: a list of them, or one. -/
def statementsOf : Option Json → Except Malformed (List Node)
  | none => .ok []
  | some (.array items) => Node.ofItems items
  | some single => (Node.ofJson single).map ([·])

/-- The unit that a document stands for. -/
def ofJson : Json → Except Malformed Program
  | .object members => do
      let name ← nameOf (Table.find "program" members)
      let globals ← globalsOf (Table.find "variables" members)
      let imports ← importsOf (Table.find "import" members)
      let statements ← statementsOf (Table.find "code" members)
      return ⟨name, globals, imports, statements⟩
  | _ => .error (.shape .program .notObject)

/-- The unit that a text stands for. -/
def read (text : String) : Except Malformed Program :=
  match Json.read text with
  | .ok document => ofJson document
  | .error fault => .error (.notJson fault)

end Program
end DocScript
