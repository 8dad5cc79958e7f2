import DocScript.Fault.Basic
import DocScript.Scopes
import DocScript.Value.Text

/-!
# Sessions

A session is the state that programs run in: global variables, frames of local
ones, functions, loaded units, and how deep calls are nested. It runs on a host,
whose own state of type `H` is changed by the functions that the host supplies
and by what is written to the console.
-/

namespace DocScript

/-- Where output goes. A write or a flush may fail, and may have changed the host all the same. -/
structure Console (H : Type) where
  write : String → H → Except IoFault Unit × H
  flush : H → Except IoFault Unit × H

/-- A function that the host supplies. -/
abbrev Native (H : Type) :=
  Console H → List Value → H → Except EvalFault Value × H

/-- A function that can be called. -/
inductive Function (H : Type) where
  | native (run : Native H)
  | user (params : Params) (body : Node)

/-- Where the text of a unit comes from, given a reference to it. -/
abbrev Loader :=
  String → Except LoadFault String

namespace Function

variable {H : Type}

/-- Whether the host supplies a function. -/
def isNative : Function H → Bool
  | .native _ => true
  | .user _ _ => false

/-- The parameters of a function as the shell lists them. -/
def signature : Function H → String
  | .native _ => "..."
  | .user params _ => params.text

end Function

namespace Native

variable {H : Type}

/-- The name of the function that every session starts with. -/
def printName : String := "print"

/-- Writes the texts of the arguments on one line, with blanks between them. -/
def print : Native H := fun console args host =>
  let line := " ".intercalate (args.map Value.text) ++ "\n"
  match console.write line host with
  | (.error fault, host) => (.error (.output fault), host)
  | (.ok _, host) =>
      match console.flush host with
      | (.error fault, host) => (.error (.output fault), host)
      | (.ok _, host) => (.ok .null, host)

end Native

/-- The state that programs run in. -/
structure Session (H : Type) where
  host : H
  console : Console H
  loader : Loader
  globals : Table Value := .empty
  scopes : Scopes := .root
  functions : Table (Function H) := ⟨[(Native.printName, .native Native.print)]⟩
  programs : Table Program := .empty
  /-- How many calls of user functions are running. -/
  callDepth : Nat := 0
  /-- How many may run at a time. -/
  maxCallDepth : Nat := 1000

namespace Session

variable {H : Type}

/-- The value of a global variable. -/
def getGlobal (s : Session H) (name : String) : Except EvalFault Value :=
  match s.globals.get? name with
  | some value => .ok value
  | none => .error (.undefinedGlobal name)

/-- Sets a global variable. -/
def setGlobal (s : Session H) (name : String) (value : Value) : Session H :=
  { s with globals := s.globals.insert name value }

/-- Sets global variables, one after the other. -/
def setGlobals (s : Session H) (bindings : List (String × Value)) : Session H :=
  { s with globals := s.globals.insertAll bindings }

/-- The value of a local variable. -/
def getLocal (s : Session H) (name : String) : Except EvalFault Value :=
  match s.scopes.lookup? name with
  | some value => .ok value
  | none => .error (.unboundLocal name)

/-- Sets a local variable. -/
def setLocal (s : Session H) (name : String) (value : Value) : Session H :=
  { s with scopes := s.scopes.assign name value }

/-- Binds a local variable in the current frame. -/
def declare (s : Session H) (name : String) (value : Value) : Session H :=
  { s with scopes := s.scopes.declare name value }

/-- Opens a frame inside the current one. -/
def enterScope (s : Session H) : Session H :=
  { s with scopes := s.scopes.push }

/-- Opens a frame for a call. -/
def enterCallScope (s : Session H) : Session H :=
  { s with scopes := s.scopes.pushCall }

/-- Closes the current frame, unless it is the only one. -/
def exitScope (s : Session H) : Except EvalFault (Session H) :=
  if s.scopes.atRoot then .error .rootFrame
  else .ok { s with scopes := s.scopes.pop }

/-- Counts one more running call, up to the limit. -/
def enterCall (s : Session H) : Except EvalFault (Session H) :=
  if s.maxCallDepth ≤ s.callDepth then .error (.callLimit s.maxCallDepth)
  else .ok { s with callDepth := s.callDepth + 1 }

/-- Counts one running call less. -/
def exitCall (s : Session H) : Session H :=
  { s with callDepth := s.callDepth - 1 }

/-- Registers a function under a name. -/
def define (s : Session H) (name : String) (function : Function H) : Session H :=
  { s with functions := s.functions.insert name function }

/-- Registers a unit under its name. -/
def addProgram (s : Session H) (program : Program) : Session H :=
  { s with programs := s.programs.insert program.name program }

/-- Changes how many calls may run at a time. -/
def limitCalls (s : Session H) (limit : Nat) : Session H :=
  { s with maxCallDepth := limit }

/-- Forgets all that programs have left behind; functions of the host stay. -/
def reset (s : Session H) : Session H :=
  { s with
    globals := .empty
    scopes := .root
    functions := s.functions.filter Function.isNative
    programs := .empty
    callDepth := 0 }

end Session
end DocScript
