import DocScript.Program.Reader
import DocScript.Session.Basic

/-!
# Evaluation

A tree is evaluated in a session. Evaluation finishes with a value, with a
`return` on its way out to the call it ends, or with a fault; in each case the
session it leaves behind comes with it. As a program may run forever, evaluation
is given fuel, and running out of fuel is none of these outcomes.

`Run.andThen` is how constructs follow one another: the next one starts only
after a value, with the session that the value came with. `step` says what each
construct does in terms of an evaluation of its parts, and `eval` ties the knot.
-/

namespace DocScript

/-- How an evaluation finishes. -/
inductive Outcome where
  | value (v : Value)
  /-- A `return` on its way out. -/
  | returned (v : Value)
  | failed (fault : EvalFault)

/-- A call or a unit ends where a `return` in it arrives. -/
def Outcome.settle : Outcome → Outcome
  | .returned v => .value v
  | outcome => outcome

/-- The outcome of a part that has a value or a fault. -/
def Outcome.ofExcept : Except EvalFault Value → Outcome
  | .ok v => .value v
  | .error fault => .failed fault

/-- What an evaluation comes to: an outcome and a session, or nothing when fuel ran out. -/
abbrev Run (H : Type) :=
  Option (Outcome × Session H)

namespace Run

variable {H : Type}

/-- Goes on after a value; a `return`, a fault or a lack of fuel ends the evaluation. -/
@[inline] def andThen (run : Run H) (next : Value → Session H → Run H) : Run H :=
  match run with
  | some (.value v, s) => next v s
  | ended => ended

/-- Ends a call or a unit. -/
def settle (run : Run H) : Run H :=
  run.map fun (outcome, s) => (outcome.settle, s)

@[simp] theorem andThen_value (v : Value) (s : Session H) (next : Value → Session H → Run H) :
    andThen (some (.value v, s)) next = next v s := rfl

@[simp] theorem andThen_returned (v : Value) (s : Session H)
    (next : Value → Session H → Run H) :
    andThen (some (.returned v, s)) next = some (.returned v, s) := rfl

@[simp] theorem andThen_failed (fault : EvalFault) (s : Session H)
    (next : Value → Session H → Run H) :
    andThen (some (.failed fault, s)) next = some (.failed fault, s) := rfl

@[simp] theorem andThen_none (next : Value → Session H → Run H) :
    andThen none next = none := rfl

/-- Runs are gone on with one after the other, however they are grouped. -/
theorem andThen_assoc (run : Run H) (next after : Value → Session H → Run H) :
    (run.andThen next).andThen after = run.andThen fun v s => (next v s).andThen after := by
  rcases run with _ | ⟨outcome, s⟩
  · rfl
  · cases outcome <;> rfl

theorem andThen_some_value (run : Run H) :
    (run.andThen fun v s => some (.value v, s)) = run := by
  rcases run with _ | ⟨outcome, s⟩
  · rfl
  · cases outcome <;> rfl

/-- It matters only what is gone on with from the value that the run comes to. -/
theorem andThen_congr {run : Run H} {next next' : Value → Session H → Run H}
    (h : ∀ v s, run = some (.value v, s) → next v s = next' v s) :
    run.andThen next = run.andThen next' := by
  rcases run with _ | ⟨outcome, s⟩
  · rfl
  · cases outcome with
    | value v => exact h v s rfl
    | _ => rfl

end Run

namespace Eval

section

variable {H : Type}

/-- An evaluation of trees, which the constructs are explained by. -/
abbrev Evaluator (H : Type) :=
  Node → Session H → Run H

/-- Evaluates statements in order; the value is that of the last one. -/
def block (ev : Evaluator H) (last : Value) : List Node → Session H → Run H
  | [], s => some (.value last, s)
  | node :: rest, s => (ev node s).andThen fun v s => block ev v rest s

/--
Evaluates trees in order and goes on with their values. `done` holds the values so
far, last one first.
-/
def all (ev : Evaluator H) (next : List Value → Session H → Run H) (done : List Value) :
    List Node → Session H → Run H
  | [], s => next done.reverse s
  | node :: rest, s => (ev node s).andThen fun v s => all ev next (v :: done) rest s

/-- Closes the current frame after an outcome; to close the only frame is a fault. -/
def closeFrame (outcome : Outcome) (s : Session H) : Run H :=
  if s.scopes.atRoot then some (.failed .rootFrame, s)
  else some (outcome, { s with scopes := s.scopes.pop })

/-- Runs a body in a frame of its own, which is closed whatever the body comes to. -/
def inFrame (body : Session H → Run H) (s : Session H) : Run H :=
  match body s.enterScope with
  | none => none
  | some (outcome, s) => closeFrame outcome s

/-- Repeats a body as long as a test holds, for at most a number of rounds. -/
def repeatWhile (test body : Session H → Run H) : Nat → Session H → Run H
  | 0, _ => none
  | rounds + 1, s =>
      (test s).andThen fun v s =>
        if v.truthy then (body s).andThen fun _ s => repeatWhile test body rounds s
        else some (.value .null, s)

/-- The value of an operation on operands that have been evaluated. -/
def combine (op : Operator) (operands : List Value) (s : Session H) : Run H :=
  match operands with
  | [] => some (.failed (.malformed (.shape (.operator op) .noOperand)), s)
  | first :: rest =>
      match op.fold first rest with
      | .ok v => some (.value v, s)
      | .error mismatch => some (.failed (.mismatch mismatch), s)

/-- Pairs parameters with arguments. -/
def bindArguments (function : String) (args : List Value) :
    Params → Except EvalFault (List (String × Value))
  | .fixed names =>
      if names.length = args.length then .ok (names.zip args)
      else .error (.arity function names.length args.length)
  | .variadic name => .ok [(name, .list args)]

/-- Binds parameters in the current frame, one after the other. -/
def declareAll (s : Session H) (bindings : List (String × Value)) : Session H :=
  bindings.foldl (fun s (name, value) => s.declare name value) s

/--
Calls a function. The body of a user function is evaluated in a frame that
continues none and holds the parameters; the number of arguments is checked
first, then the limit on calls.
-/
def invoke (ev : Evaluator H) (name : String) (args : List Value) (s : Session H) : Run H :=
  match s.functions.get? name with
  | none => some (.failed (.unknownFunction name), s)
  | some (.native run) =>
      match run s.console args s.host with
      | (result, host) => some (.ofExcept result, { s with host })
  | some (.user params body) =>
      match bindArguments name args params with
      | .error fault => some (.failed fault, s)
      | .ok bindings =>
          match s.enterCall with
          | .error fault => some (.failed fault, s)
          | .ok entered =>
              match ev body (declareAll entered.enterCallScope bindings) with
              | none => none
              | some (outcome, s) => closeFrame outcome.settle s.exitCall

/-- Imports units in order by `load`; the value is that of the last one. -/
def imports (load : String → Session H → Run H) (last : Value) :
    List String → Session H → Run H
  | [], s => some (.value last, s)
  | reference :: rest, s => (load reference s).andThen fun v s => imports load v rest s

/-- Runs a unit: its variables are set, then its imports run, then its statements. -/
def runUnit (ev : Evaluator H) (load : String → Session H → Run H) (program : Program)
    (s : Session H) : Run H :=
  (imports load .null program.imports (s.setGlobals program.globals)).andThen fun _ s =>
    (block ev .null program.statements s).settle

/-- The unit that a reference leads to. -/
def loadUnit (loader : Loader) (reference : String) : Except EvalFault Program :=
  match loader reference with
  | .error source => .error (.importFailed reference source)
  | .ok text =>
      match Program.read text with
      | .error source => .error (.invalidUnit reference source)
      | .ok program => .ok program

/-- A unit is loaded if there is a text for it, and the text is read. -/
theorem loadUnit_eq_ok_iff {loader : Loader} {reference : String} {program : Program} :
    loadUnit loader reference = .ok program ↔
      ∃ text, loader reference = .ok text ∧ Program.read text = .ok program := by
  unfold loadUnit
  cases loader reference with
  | error source => simp
  | ok text => cases hread : Program.read text <;> simp [hread]

/-- A unit cannot be loaded where there is none, or where it is malformed. -/
theorem loadUnit_eq_error_iff {loader : Loader} {reference : String} {fault : EvalFault} :
    loadUnit loader reference = .error fault ↔
      (∃ source, loader reference = .error source ∧ fault = .importFailed reference source) ∨
      ∃ text source, loader reference = .ok text ∧ Program.read text = .error source ∧
        fault = .invalidUnit reference source := by
  unfold loadUnit
  cases loader reference with
  | error source => simp [eq_comm]
  | ok text => cases hread : Program.read text <;> simp [hread, eq_comm]

/-- Loads a unit, registers it and runs it; imports may be nested to a given depth. -/
def importUnit (ev : Evaluator H) : Nat → String → Session H → Run H
  | 0, _, _ => none
  | depth + 1, reference, s =>
      match loadUnit s.loader reference with
      | .error fault => some (.failed fault, s)
      | .ok program => runUnit ev (importUnit ev depth) program (s.addProgram program)

/-- Runs a unit that has been loaded. -/
def runProgram (ev : Evaluator H) (depth : Nat) (name : String) (s : Session H) : Run H :=
  match s.programs.get? name with
  | none => some (.failed (.unknownProgram name), s)
  | some program => runUnit ev (importUnit ev depth) program s

/-- The case that a value chooses. -/
def chooseCase (v : Value) (cases : List (String × Node)) : Option Node :=
  match Table.find v.text cases with
  | some node => some node
  | none => Table.find Node.anyCase cases

/-- Only a case can be chosen. -/
theorem mem_of_chooseCase {v : Value} {cases : List (String × Node)} {node : Node}
    (h : chooseCase v cases = some node) : node ∈ cases.map Prod.snd := by
  unfold chooseCase at h
  split at h
  · rename_i hfind
    cases h
    exact List.mem_map_of_mem (Table.mem_of_find hfind)
  · exact List.mem_map_of_mem (Table.mem_of_find h)

/-- The value of a part that has one, in an unchanged session. -/
def answer (result : Except EvalFault Value) (s : Session H) : Run H :=
  some (.ofExcept result, s)

/-- What each construct does, in terms of an evaluation of its parts. -/
def step (ev : Evaluator H) (fuel : Nat) : Node → Session H → Run H
  | .literal v, s => some (.value v, s)
  | .block statements, s => block ev .null statements s
  | .var name, s => answer (s.getGlobal name) s
  | .localVar name none, s => answer (s.getLocal name) s
  | .localVar name (some value), s =>
      (ev value s).andThen fun v s =>
        let s := s.setLocal name v
        answer (s.getLocal name) s
  | .set name value, s =>
      (ev value s).andThen fun v s => some (.value v, s.setGlobal name v)
  | .setLocal name value, s =>
      (ev value s).andThen fun v s => some (.value v, s.setLocal name v)
  | .branch condition thenBranch elseBranch, s =>
      inFrame
        (fun s => (ev condition s).andThen fun v s =>
          if v.truthy then ev thenBranch s
          else
            match elseBranch with
            | some node => ev node s
            | none => some (.value .null, s))
        s
  | .forLoop init condition step code, s =>
      inFrame
        (fun s => (ev init s).andThen fun _ s =>
          repeatWhile (ev condition) (fun s => (ev code s).andThen fun _ s => ev step s) fuel s)
        s
  | .whileLoop condition code, s =>
      inFrame (repeatWhile (ev condition) (ev code) fuel) s
  | .switch value cases, s =>
      inFrame
        (fun s => (ev value s).andThen fun v s =>
          match chooseCase v cases with
          | some node => ev node s
          | none => some (.value .null, s))
        s
  | .define name params code, s =>
      some (.value (.function name), s.define name (.user params code))
  | .call name args, s => all ev (invoke ev name) [] args s
  | .ret value, s => (ev value s).andThen fun v s => some (.returned v, s)
  | .imports references, s => imports (importUnit ev fuel) .null references s
  | .list items, s => all ev (fun vs s => some (.value (.list vs), s)) [] items s
  | .operation op operands, s => all ev (combine op) [] operands s
  | .comment, s => some (.value .null, s)

end

end Eval

/-- Evaluates a tree in a session, with so much fuel. -/
def eval {H : Type} : Nat → Node → Session H → Run H
  | 0, _, _ => none
  | fuel + 1, node, s => Eval.step (eval fuel) fuel node s

end DocScript
