import DocScript.Eval
import DocScript.FileTree

/-!
# What a session can be asked

Requests to a session: evaluate a document, run a statement, load a unit from a
text or a file, run a unit, import one, call a function. A request is answered
with a value or a fault, together with the session it leaves behind; requests
that evaluate are given fuel and have no answer when it runs out.
-/

namespace DocScript

/-- The answer to a request that evaluates. -/
abbrev Answer (H α : Type) :=
  Option (Except Fault α × Session H)

/-- The value that an evaluation at the top comes to. -/
def Outcome.result : Outcome → Except Fault Value
  | .value v => .ok v
  | .returned v => .ok v
  | .failed fault => .error (.eval fault)

/-- An evaluation at the top as an answer. -/
def Run.answer {H : Type} (run : Run H) : Answer H Value :=
  run.map fun (outcome, s) => (outcome.result, s)

namespace Session

variable {H : Type}

/-- Evaluates a tree. -/
def evalNode (fuel : Nat) (node : Node) (s : Session H) : Answer H Value :=
  (eval fuel node s).answer

/-- Evaluates a document. -/
def evalDocument (fuel : Nat) (document : Json) (s : Session H) : Answer H Value :=
  match Node.ofJson document with
  | .ok node => s.evalNode fuel node
  | .error fault => some (.error (.malformed fault), s)

/-- Evaluates the document that a text stands for. -/
def runStatement (fuel : Nat) (text : String) (s : Session H) : Answer H Value :=
  match Node.read text with
  | .ok node => s.evalNode fuel node
  | .error fault => some (.error (.malformed fault), s)

/-- Registers the unit that a text stands for, and tells its name. -/
def loadText (text : String) (s : Session H) : Except Fault String × Session H :=
  match Program.read text with
  | .ok program => (.ok program.name, s.addProgram program)
  | .error fault => (.error (.malformed fault), s)

/-- Registers the unit in a file, and tells its name. -/
def loadFile (disk : Disk) (path : String) (s : Session H) : Except Fault String × Session H :=
  match disk.readText path with
  | .ok text => s.loadText text
  | .error fault => (.error (.load (.unreadable path fault)), s)

/-- Runs a unit that has been loaded. -/
def runProgram (fuel : Nat) (name : String) (s : Session H) : Answer H Value :=
  (Eval.runProgram (eval fuel) fuel name s).answer

/-- Loads the unit that a reference leads to, and runs it. -/
def importProgram (fuel : Nat) (reference : String) (s : Session H) : Answer H Value :=
  (Eval.importUnit (eval fuel) fuel reference s).answer

/-- Registers the unit that a text stands for, and runs it. -/
def runText (fuel : Nat) (text : String) (s : Session H) : Answer H Value :=
  match s.loadText text with
  | (.ok name, s) => s.runProgram fuel name
  | (.error fault, s) => some (.error fault, s)

/-- Calls a function. -/
def invoke (fuel : Nat) (name : String) (args : List Value) (s : Session H) : Answer H Value :=
  (Eval.invoke (eval fuel) name args s).answer

end Session
end DocScript
