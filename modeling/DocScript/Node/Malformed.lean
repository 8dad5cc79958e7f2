import DocScript.Json.Fault
import DocScript.Node.Basic

/-!
# Malformed documents

A document that is no program tree is refused with the construct at fault and
what is wrong with it, or with the key that names no construct. A text that is no
JSON at all is malformed too.
-/

namespace DocScript

/-- What a defect is reported against. -/
inductive Construct where
  | program
  | globals
  | node
  | keyword (word : Keyword)
  | operator (op : Operator)
deriving DecidableEq

/-- The name of a construct. -/
def Construct.text : Construct → String
  | .program => "program"
  | .globals => "variables"
  | .node => "node"
  | .keyword word => word.name
  | .operator op => op.sign

/-- What is wrong with the document of a construct. -/
inductive Defect where
  | notObject
  | notObjectOrString
  | notList
  | notListOrString
  | noOperand
  | notOneKeyword (count : Nat)
  | missingField (field : String)
  | nameNotString
  | rangeNotTriple
  | caseNotObject
  | argsNotNames
  | parameterNotString
  | referenceNotString
  | programNameNotString
deriving DecidableEq

/-- The wording of a defect. -/
def Defect.text : Defect → String
  | .notObject => "expects an object"
  | .notObjectOrString => "expects an object or a string"
  | .notList => "expects a list"
  | .notListOrString => "expects a list or a string"
  | .noOperand => "expects at least one operand"
  | .notOneKeyword count => s!"expects exactly one keyword, found {count}"
  | .missingField field => s!"is missing field \"{field}\""
  | .nameNotString => "field \"name\" must be a string"
  | .rangeNotTriple => "field \"range\" must be a list of [init, condition, step]"
  | .caseNotObject => "field \"case\" must be an object"
  | .argsNotNames => "field \"args\" must be a list of names or a string"
  | .parameterNotString => "argument names must be strings"
  | .referenceNotString => "references must be strings"
  | .programNameNotString => "name must be a string"

/-- Why a document is no program tree. -/
inductive Malformed where
  | shape (construct : Construct) (defect : Defect)
  | unknown (key : String)
  | notJson (fault : Json.Fault)
deriving DecidableEq

/-- The wording of a refusal. -/
def Malformed.message : Malformed → String
  | .shape construct defect => s!"\"{construct.text}\" {defect.text}"
  | .unknown key => s!"Unrecognized command \"{key}\""
  | .notJson fault => s!"Invalid JSON document: {fault.message}"

end DocScript
