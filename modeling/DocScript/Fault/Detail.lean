import DocScript.Fault.Basic
import DocScript.Text.Quoted

/-!
# Faults in detail

With debugging on, the shell shows a fault a second time, as the cause with its
data: texts in quotes, causes nested in one another.
-/

namespace DocScript

/-- A cause with unnamed data. -/
def detailOf (cause content : String) : String :=
  cause ++ "(" ++ content ++ ")"

/-- A cause with named data. -/
def detailFields (cause : String) (fields : List (String × String)) : String :=
  cause ++ " \x7b " ++ ", ".intercalate (fields.map fun (name, content) => name ++ ": " ++ content)
    ++ " \x7d"

/-- A cause of the system: its number, its kind and its words. -/
def systemDetail (code : Nat) (kind message : String) : String :=
  detailFields "Os"
    [("code", toString code), ("kind", kind), ("message", Text.quote message)]

/-- A file or console fault in detail. -/
def IoFault.detail : IoFault → String
  | .notFound => systemDetail 2 "NotFound" "No such file or directory"
  | .notDirectory => systemDetail 20 "NotADirectory" "Not a directory"
  | .isDirectory => systemDetail 21 "IsADirectory" "Is a directory"
  | .nameTooLong => systemDetail 36 "InvalidFilename" "File name too long"
  | .notUtf8 =>
      detailFields "Error"
        [("kind", "InvalidData"), ("message", Text.quote IoFault.notUtf8.message)]
  | .nulInPath =>
      detailFields "Error"
        [("kind", "InvalidInput"), ("message", Text.quote IoFault.nulInPath.message)]
  | .host text => detailFields "Custom" [("kind", "Other"), ("error", Text.quote text)]

/-- A loading fault in detail. -/
def LoadFault.detail : LoadFault → String
  | .notFound reference => detailOf "NotFound" (Text.quote reference)
  | .unreadable path source =>
      detailFields "Io" [("path", Text.quote path), ("source", source.detail)]
  | .unfitExtension extension => detailOf "UnfitExtension" (Text.quote extension)

/-- A fault of JSON text in detail. -/
def Json.Fault.detail (fault : Json.Fault) : String :=
  detailOf "Error"
    s!"{Text.quote fault.reason.text}, line: {fault.line}, column: {fault.column}"

/-- A refused document in detail. -/
def Malformed.detail : Malformed → String
  | .shape construct defect =>
      detailFields "Shape"
        [("construct", Text.quote construct.text), ("message", Text.quote defect.text)]
  | .unknown key => detailOf "UnknownConstruct" (Text.quote key)
  | .notJson fault => detailOf "Json" fault.detail

/-- An operator in detail. -/
def Operator.detail : Operator → String
  | .add => "Add"
  | .sub => "Sub"
  | .mul => "Mul"
  | .div => "Div"
  | .eq => "Eq"
  | .ne => "Ne"
  | .lt => "Lt"
  | .gt => "Gt"
  | .and => "And"
  | .or => "Or"

/-- An evaluation fault in detail. -/
def EvalFault.detail : EvalFault → String
  | .undefinedGlobal name => detailOf "UndefinedGlobal" (Text.quote name)
  | .unboundLocal name => detailOf "Scope" (detailOf "VariableNotFound" (Text.quote name))
  | .rootFrame => detailOf "Scope" "RootScope"
  | .unknownFunction name => detailOf "UnknownFunction" (Text.quote name)
  | .unknownProgram name => detailOf "ProgramNotFound" (Text.quote name)
  | .arity function expected actual =>
      detailFields "ArityMismatch"
        [("function", Text.quote function), ("expected", toString expected),
          ("actual", toString actual)]
  | .mismatch operands =>
      detailFields "TypeMismatch"
        [("operator", operands.operator.detail), ("left", Text.quote operands.left.text),
          ("right", Text.quote operands.right.text)]
  | .importFailed reference source =>
      detailFields "Import" [("reference", Text.quote reference), ("source", source.detail)]
  | .invalidUnit reference source =>
      detailFields "InvalidUnit"
        [("reference", Text.quote reference), ("source", source.detail)]
  | .malformed source => detailOf "Parse" source.detail
  | .native function message =>
      detailFields "Native"
        [("function", Text.quote function), ("message", Text.quote message)]
  | .output source => detailOf "Io" source.detail
  | .callLimit limit => detailOf "RecursionLimit" (toString limit)

/-- A fault in detail. -/
def Fault.detail : Fault → String
  | .eval source => detailOf "Eval" source.detail
  | .malformed source => detailOf "AST" source.detail
  | .load source => detailOf "Load" source.detail
  | .settings source => detailOf "Config" (Text.quote source.message)
  | .usage source => detailOf "Usage" (Text.quote source.message)
  | .io source => detailOf "Io" source.detail

end DocScript
