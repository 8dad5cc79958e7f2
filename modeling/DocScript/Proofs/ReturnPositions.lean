import DocScript.Proofs.ReturnUnwinding
import DocScript.Proofs.Subtrees

/-!
# A `return` comes from where it is written

An evaluation ends with a `return` on its way out only if a `return` is written in the tree
that is evaluated, and not in the code of a function that the tree defines. What the tree
calls or imports may return as often as it likes: a call and a unit end where a `return` in
them arrives.

`Run.ReturnsOnlyIf` says of a run what has to hold if it ends with a `return`. Every way of
putting evaluations together keeps it, and calls, imports and runs of units have it
whatever it asks for.

**Results.**
* `Eval.invoke_returnsOnlyIf`, `Eval.importUnit_returnsOnlyIf`,
  `Eval.runProgram_returnsOnlyIf`: calls, imports and runs of units end with no `return`.
* `Eval.step_returnsOnlyIf`: no construct but `return` makes one.
* `return_is_written`: evaluation ends with a `return` only if one is written in the tree.
-/

namespace DocScript

variable {H : Type}

/-- A `return` is written in a tree, and not in the code of a function that it defines. -/
inductive Node.HasReturn : Node → Prop
  | here (value : Node) : HasReturn (.ret value)
  | within {node part : Node} (hpart : part ∈ node.parts) (hreturn : HasReturn part) :
      HasReturn node

/-- A run that ends with a `return` only if something holds. -/
def Run.ReturnsOnlyIf (P : Prop) (run : Run H) : Prop :=
  ∀ v s, run = some (.returned v, s) → P

namespace Run.ReturnsOnlyIf

variable {P : Prop} {run : Run H} {s : Session H}

/-- Where returns are allowed, any run will do. -/
theorem of_holds (hP : P) : run.ReturnsOnlyIf P :=
  fun _ _ _ => hP

theorem unfinished : ReturnsOnlyIf P (none : Run H) := by
  rintro v s ⟨⟩

theorem value (v : Value) : ReturnsOnlyIf P (some (.value v, s)) := by
  rintro v s ⟨⟩

theorem failed (fault : EvalFault) : ReturnsOnlyIf P (some (.failed fault, s)) := by
  rintro v s ⟨⟩

theorem ofExcept (result : Except EvalFault Value) :
    ReturnsOnlyIf P (some (.ofExcept result, s)) := by
  cases result with
  | ok v =>
      exact value v
  | error fault =>
      exact failed fault

/-- A return comes from the first run or from what follows it. -/
theorem andThen {next : Value → Session H → Run H} (hrun : run.ReturnsOnlyIf P)
    (hnext : ∀ v s, (next v s).ReturnsOnlyIf P) : (run.andThen next).ReturnsOnlyIf P := by
  rcases run with _ | ⟨outcome, s⟩
  · exact unfinished
  · cases outcome with
    | value v =>
        exact hnext v s
    | returned v =>
        exact of_holds (hrun v s rfl)
    | failed fault =>
        exact failed fault

/-- A `return` arrives at the end of a call or a unit. -/
theorem settle (run : Run H) : run.settle.ReturnsOnlyIf P := by
  rcases run with _ | ⟨outcome, s⟩
  · exact unfinished
  · cases outcome with
    | value v =>
        exact value v
    | returned v =>
        exact value v
    | failed fault =>
        exact failed fault

end Run.ReturnsOnlyIf

namespace Eval

variable {P : Prop} {s : Session H}

/-- To close a frame makes up no return. -/
theorem closeFrame_returnsOnlyIf {outcome : Outcome} (houtcome : ∀ v, outcome = .returned v → P) :
    (closeFrame outcome s).ReturnsOnlyIf P := by
  cases hroot : s.scopes.atRoot with
  | true =>
      rw [closeFrame_of_atRoot hroot]
      exact .failed _
  | false =>
      rw [closeFrame_of_not_atRoot hroot]
      rintro v s' ⟨⟩
      exact houtcome v rfl

theorem inFrame_returnsOnlyIf {body : Session H → Run H}
    (hbody : ∀ s, (body s).ReturnsOnlyIf P) : (inFrame body s).ReturnsOnlyIf P := by
  have hrun := hbody s.enterScope
  unfold inFrame
  generalize body s.enterScope = run at hrun ⊢
  rcases run with _ | ⟨outcome, s'⟩
  · exact .unfinished
  · refine closeFrame_returnsOnlyIf fun v houtcome => hrun v s' ?_
    rw [houtcome]

/-- A loop returns only if its test or its body does, in whichever round. -/
theorem repeatWhile_returnsOnlyIf {test body : Session H → Run H}
    (htest : ∀ s, (test s).ReturnsOnlyIf P) (hbody : ∀ s, (body s).ReturnsOnlyIf P)
    (rounds : Nat) : (repeatWhile test body rounds s).ReturnsOnlyIf P := by
  induction rounds generalizing s with
  | zero =>
      exact .unfinished
  | succ rounds ih =>
      refine (htest s).andThen fun v s => ?_
      split
      · exact (hbody s).andThen fun _ s => ih
      · exact .value .null

theorem block_returnsOnlyIf {ev : Evaluator H} {statements : List Node}
    (hstatements : ∀ statement ∈ statements, ∀ s, (ev statement s).ReturnsOnlyIf P)
    (last : Value) : (block ev last statements s).ReturnsOnlyIf P := by
  induction statements generalizing last s with
  | nil =>
      exact .value last
  | cons statement rest ih =>
      obtain ⟨hfirst, hrest⟩ := List.forall_mem_cons.mp hstatements
      exact (hfirst s).andThen fun v s => ih hrest v

theorem all_returnsOnlyIf {ev : Evaluator H} {next : List Value → Session H → Run H}
    (hnext : ∀ vs s, (next vs s).ReturnsOnlyIf P) {nodes : List Node}
    (hnodes : ∀ node ∈ nodes, ∀ s, (ev node s).ReturnsOnlyIf P) (done : List Value) :
    (all ev next done nodes s).ReturnsOnlyIf P := by
  induction nodes generalizing done s with
  | nil =>
      exact hnext _ s
  | cons node rest ih =>
      obtain ⟨hfirst, hrest⟩ := List.forall_mem_cons.mp hnodes
      exact (hfirst s).andThen fun v s => ih hrest (v :: done)

/-- To apply an operator comes to a value or to a fault. -/
theorem combine_returnsOnlyIf (op : Operator) (operands : List Value) :
    (combine op operands s).ReturnsOnlyIf P := by
  cases operands with
  | nil =>
      exact .failed _
  | cons first rest =>
      simp only [combine]
      cases op.fold first rest with
      | ok v =>
          exact .value v
      | error mismatch =>
          exact .failed _

/-- A call ends with no `return`, whatever the function does. -/
theorem invoke_returnsOnlyIf (ev : Evaluator H) (name : String) (args : List Value) :
    (invoke ev name args s).ReturnsOnlyIf P := by
  rcases invoke_cases name args s with
    ⟨fault, _, hrefused⟩ | ⟨run, _, hnative⟩ | ⟨params, body, bindings, _, _, huser⟩
  · rw [hrefused]
    exact .failed fault
  · rw [hnative]
    exact .ofExcept _
  · rw [huser, callBody]
    cases ev body (s.called bindings) with
    | none =>
        exact .unfinished
    | some finished =>
        refine closeFrame_returnsOnlyIf fun v houtcome => ?_
        obtain ⟨outcome, _⟩ := finished
        cases outcome <;> cases houtcome

theorem imports_returnsOnlyIf {load : String → Session H → Run H}
    (hload : ∀ reference s, (load reference s).ReturnsOnlyIf P) (last : Value)
    (references : List String) : (imports load last references s).ReturnsOnlyIf P := by
  induction references generalizing last s with
  | nil =>
      exact .value last
  | cons reference rest ih =>
      exact (hload reference s).andThen fun v s => ih v

/-- The code of a unit is settled, so that a unit does not return. -/
theorem runUnit_returnsOnlyIf (ev : Evaluator H) {load : String → Session H → Run H}
    (hload : ∀ reference s, (load reference s).ReturnsOnlyIf P) (program : Program) :
    (runUnit ev load program s).ReturnsOnlyIf P :=
  (imports_returnsOnlyIf hload .null program.imports).andThen fun _ _ => .settle _

/-- An import ends with no `return`, whatever the units do. -/
theorem importUnit_returnsOnlyIf (ev : Evaluator H) (levels : Nat) (reference : String) :
    (importUnit ev levels reference s).ReturnsOnlyIf P := by
  induction levels generalizing reference s with
  | zero =>
      exact .unfinished
  | succ levels ih =>
      rw [importUnit]
      cases loadUnit s.loader reference with
      | error fault =>
          exact .failed fault
      | ok program =>
          exact runUnit_returnsOnlyIf ev (fun reference s => ih reference) program

theorem runProgram_returnsOnlyIf (ev : Evaluator H) (levels : Nat) (name : String) :
    (runProgram ev levels name s).ReturnsOnlyIf P := by
  unfold runProgram
  cases s.programs.get? name with
  | none =>
      exact .failed _
  | some program =>
      exact runUnit_returnsOnlyIf ev
        (fun reference s => importUnit_returnsOnlyIf ev levels reference) program

section Constructs

variable {ev : Evaluator H} {node : Node}

theorem framed_returnsOnlyIf
    (hpart : ∀ part ∈ node.parts, ∀ s, (ev part s).ReturnsOnlyIf P) (fuel : Nat) :
    (framed ev fuel node s).ReturnsOnlyIf P := by
  cases node with
  | branch condition thenBranch elseBranch =>
      refine (hpart condition List.mem_cons_self s).andThen fun v s => ?_
      split
      · exact hpart thenBranch (by simp [Node.parts]) s
      · cases elseBranch with
        | none =>
            exact .value .null
        | some node =>
            exact hpart node (by simp [Node.parts]) s
  | forLoop init condition step code =>
      refine (hpart init (by simp [Node.parts]) s).andThen fun _ s => ?_
      refine repeatWhile_returnsOnlyIf (hpart condition (by simp [Node.parts])) (fun s => ?_) fuel
      exact (hpart code (by simp [Node.parts]) s).andThen fun _ s =>
        hpart step (by simp [Node.parts]) s
  | whileLoop condition code =>
      exact repeatWhile_returnsOnlyIf (hpart condition (by simp [Node.parts]))
        (hpart code (by simp [Node.parts])) fuel
  | switch value cases =>
      refine (hpart value List.mem_cons_self s).andThen fun v s => ?_
      cases hchosen : chooseCase v cases with
      | none =>
          exact .value .null
      | some node =>
          exact hpart node (List.mem_cons_of_mem value (mem_of_chooseCase hchosen)) s
  | _ =>
      exact .value .null

/-- A construct ends with a `return` only if a part of it does, or if it is a `return`. -/
theorem step_returnsOnlyIf
    (hpart : ∀ part ∈ node.parts, ∀ s, (ev part s).ReturnsOnlyIf P)
    (hreturn : ∀ value, node = .ret value → P) (fuel : Nat) :
    (step ev fuel node s).ReturnsOnlyIf P := by
  have hframed : node.opensFrame = true → (step ev fuel node s).ReturnsOnlyIf P := by
    intro hopens
    rw [step_of_opensFrame ev fuel hopens]
    exact inFrame_returnsOnlyIf fun s => framed_returnsOnlyIf hpart fuel
  cases node with
  | literal v =>
      exact .value v
  | block statements =>
      exact block_returnsOnlyIf hpart .null
  | var name =>
      exact .ofExcept _
  | localVar name value =>
      cases value with
      | none =>
          exact .ofExcept _
      | some value =>
          exact (hpart value (by simp [Node.parts]) s).andThen fun v s => .ofExcept _
  | set name value =>
      exact (hpart value (by simp [Node.parts]) s).andThen fun v s => .value v
  | setLocal name value =>
      exact (hpart value (by simp [Node.parts]) s).andThen fun v s => .value v
  | branch condition thenBranch elseBranch =>
      exact hframed rfl
  | forLoop init condition step code =>
      exact hframed rfl
  | whileLoop condition code =>
      exact hframed rfl
  | switch value cases =>
      exact hframed rfl
  | define name params code =>
      exact .value _
  | call name args =>
      exact all_returnsOnlyIf (fun vs s => invoke_returnsOnlyIf ev name vs) hpart []
  | ret value =>
      exact .of_holds (hreturn value rfl)
  | imports references =>
      exact imports_returnsOnlyIf (fun reference s => importUnit_returnsOnlyIf ev fuel reference)
        .null references
  | list items =>
      exact all_returnsOnlyIf (fun vs s => .value (.list vs)) hpart []
  | operation op operands =>
      exact all_returnsOnlyIf (fun vs s => combine_returnsOnlyIf op vs) hpart []
  | comment =>
      exact .value .null

end Constructs

end Eval

/-- A tree returns only if a `return` is written in it, outside of the code of definitions. -/
theorem eval_returnsOnlyIf (fuel : Nat) (node : Node) (s : Session H) :
    (eval fuel node s).ReturnsOnlyIf node.HasReturn := by
  induction fuel generalizing node s with
  | zero =>
      exact .unfinished
  | succ fuel ih =>
      refine Eval.step_returnsOnlyIf (fun part hpart s v s' heval => ?_) ?_ fuel
      · exact .within hpart (ih part s v s' heval)
      · rintro value rfl
        exact .here value

/--
A `return` is written where it comes from: an evaluation that ends with a `return` on its
way out is of a tree with a `return` that is not in the code of a function the tree defines.
No call, no import and no run of a unit ends with one, whatever the functions and the units
of the session contain.
-/
theorem return_is_written (fuel : Nat) (s : Session H) :
    (∀ node v s', eval fuel node s = some (.returned v, s') → node.HasReturn) ∧
    (∀ name args v s', Eval.invoke (eval fuel) name args s ≠ some (.returned v, s')) ∧
    (∀ levels reference v s',
      Eval.importUnit (eval fuel) levels reference s ≠ some (.returned v, s')) ∧
    (∀ levels name v s',
      Eval.runProgram (eval fuel) levels name s ≠ some (.returned v, s')) :=
  ⟨fun node => eval_returnsOnlyIf fuel node s,
    fun name args => Eval.invoke_returnsOnlyIf (eval fuel) name args,
    fun levels reference => Eval.importUnit_returnsOnlyIf (eval fuel) levels reference,
    fun levels name => Eval.runProgram_returnsOnlyIf (eval fuel) levels name⟩

/-- A tree that calls a function whose code returns has no `return` of its own. -/
theorem return_is_written_secondRound :
    (∃ s', eval 6 Node.secondRound Session.looping = some (.returned (.string "done"), s')) ∧
    Node.secondRound.HasReturn ∧
    ¬ (Node.block [.define "f" (.fixed []) Node.secondRound, .call "f" []]).HasReturn ∧
    ∀ v s', Eval.invoke (eval 6) "f" [] Session.looping ≠ some (.returned v, s') := by
  obtain ⟨hnode, hcall, _⟩ := return_is_written 6 Session.looping
  obtain ⟨s', heval⟩ : ∃ s', eval 6 Node.secondRound Session.looping =
      some (.returned (.string "done"), s') := ⟨_, rfl⟩
  refine ⟨⟨s', heval⟩, hnode _ _ s' heval, ?_, hcall "f" []⟩
  rintro (_ | ⟨hpart, hreturn⟩)
  rcases List.mem_cons.mp hpart with rfl | hpart
  · cases hreturn with
    | within hpart _ =>
        cases hpart
  · cases List.mem_singleton.mp hpart
    cases hreturn with
    | within hpart _ =>
        cases hpart

end DocScript
