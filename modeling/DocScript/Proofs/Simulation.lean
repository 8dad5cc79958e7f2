import DocScript.Proofs.Frames

/-!
# Evaluations side by side

One evaluation is simulated by another when the sessions they start from are
related and every operation that evaluation makes on a session keeps them related:
whatever the first comes to, the second comes to as well, and the sessions they
leave behind are related again. The second may be given more fuel. A fault may be
*waived*: where the first evaluation fails with it, the second is free.

A `Simulation` lists what there is to check, operation by operation. Its relation
is indexed by a *world*, which holds what is known of the two sessions while one
construct is evaluated: a frame is opened into a new world, and closing it leads
back to the world before. A `FrameSimulation` is the case where the sessions
differ in their frames alone.

**Results.**
* `Simulation.keeps_eval`: an evaluation is simulated by one with as much fuel.
* `Simulation.framed_simulated`: so is what a construct does in a frame that it opens.
* `Simulation.block_simulated`, `Simulation.invoke_simulated`,
  `Simulation.importUnit_simulated`, `Simulation.runProgram_simulated`: so are
  blocks, calls, imports and runs of units.
* `FrameSimulation.toSimulation`: it is enough to look at frames.
-/

namespace DocScript

/--
What the first run comes to, the second comes to as well, in a related session,
unless it is a fault that is waived. The session that such a fault leaves behind
is still one that the relation allows.
-/
inductive Run.SimulatedBy {H : Type} (waived : EvalFault → Prop)
    (rel : Session H → Session H → Prop) : Run H → Run H → Prop
  | unfinished {run : Run H} : SimulatedBy waived rel none run
  | waived
      {fault : EvalFault} {s t : Session H} {run : Run H}
      (hfault : waived fault) (h : rel s t) :
      SimulatedBy waived rel (some (.failed fault, s)) run
  | finished
      {outcome : Outcome} {s t : Session H}
      (h : rel s t) :
      SimulatedBy waived rel (some (outcome, s)) (some (outcome, t))

namespace Run.SimulatedBy

variable {H : Type} {waived : EvalFault → Prop} {rel : Session H → Session H → Prop}
variable {run run' : Run H}

/--
What follows is simulated from related sessions; after a waived fault there is nothing left
to show.
-/
theorem andThen
    {next next' : Value → Session H → Run H}
    (h : SimulatedBy waived rel run run')
    (hnext : ∀ v s t, rel s t → SimulatedBy waived rel (next v s) (next' v t)) :
    SimulatedBy waived rel (run.andThen next) (run'.andThen next') := by
  cases h with
  | unfinished =>
      exact .unfinished
  | waived hfault hst =>
      exact .waived hfault hst
  | @finished outcome s t hst =>
      cases outcome with
      | value v =>
          exact hnext v s t hst
      | returned v =>
          exact .finished hst
      | failed fault =>
          exact .finished hst

theorem settle (h : SimulatedBy waived rel run run') :
    SimulatedBy waived rel run.settle run'.settle := by
  cases h with
  | unfinished =>
      exact .unfinished
  | waived hfault hst =>
      exact .waived hfault hst
  | finished hst =>
      exact .finished hst

theorem exists_of_not_waived
    {outcome : Outcome} {s : Session H}
    (h : SimulatedBy waived rel run run') (hrun : run = some (outcome, s))
    (houtcome : ∀ fault, outcome = .failed fault → ¬ waived fault) :
    ∃ t, run' = some (outcome, t) ∧ rel s t := by
  subst hrun
  cases h with
  | waived hfault _ =>
      exact absurd hfault (houtcome _ rfl)
  | finished hst =>
      exact ⟨_, rfl, hst⟩

/-- Where nothing is waived, the second run comes to what the first comes to. -/
theorem exists_of_eq_some
    {outcome : Outcome} {s : Session H}
    (h : SimulatedBy (fun _ => False) rel run run') (hrun : run = some (outcome, s)) :
    ∃ t, run' = some (outcome, t) ∧ rel s t :=
  h.exists_of_not_waived hrun fun _ _ => id

end Run.SimulatedBy

/--
To close the current frames, or to fail to where there is one only, leads from one
relation to another. As the failure would take the place of a fault that is waived,
there must be none to waive where it can arise.
-/
def Session.ClosesInto {H : Type} (waived : EvalFault → Prop)
    (inner outer : Session H → Session H → Prop) : Prop :=
  ∀ s t, inner s t →
    s.scopes.atRoot = t.scopes.atRoot ∧
    (s.scopes.atRoot = true → outer s t ∧ ∀ fault, ¬ waived fault) ∧
    (s.scopes.atRoot = false → outer s.closeScope t.closeScope)

section Closing

variable {H : Type} {waived : EvalFault → Prop} {inner outer : Session H → Session H → Prop}

/-- Both close a frame, or both fail to, and the outcome stays the same. -/
theorem Session.ClosesInto.closeFrame_simulated
    (h : Session.ClosesInto waived inner outer)
    {s t : Session H} (hst : inner s t) (outcome : Outcome) :
    Run.SimulatedBy waived outer (Eval.closeFrame outcome s) (Eval.closeFrame outcome t) := by
  obtain ⟨hroot, hstay, hpop⟩ := h s t hst
  cases hs : s.scopes.atRoot with
  | true =>
      rw [Eval.closeFrame_of_atRoot hs, Eval.closeFrame_of_atRoot (hroot.symm.trans hs)]
      exact .finished (hstay hs).1
  | false =>
      rw [Eval.closeFrame_of_not_atRoot hs, Eval.closeFrame_of_not_atRoot (hroot.symm.trans hs)]
      exact .finished (hpop hs)

/-- A waived fault is still waived after the frame is closed. -/
theorem Session.ClosesInto.closeFrame_waived
    (h : Session.ClosesInto waived inner outer)
    {s t : Session H} (hst : inner s t) {fault : EvalFault} (hfault : waived fault) (run : Run H) :
    Run.SimulatedBy waived outer (Eval.closeFrame (.failed fault) s) run := by
  obtain ⟨_, hstay, hpop⟩ := h s t hst
  cases hs : s.scopes.atRoot with
  | true =>
      exact absurd hfault ((hstay hs).2 fault)
  | false =>
      rw [Eval.closeFrame_of_not_atRoot hs]
      exact .waived hfault (hpop hs)

end Closing

/-- Whether a construct opens a frame for its parts. -/
def Node.opensFrame : Node → Bool
  | .branch _ _ _ => true
  | .forLoop _ _ _ _ => true
  | .whileLoop _ _ => true
  | .switch _ _ => true
  | _ => false

/-- What a construct does in the frame that it opens. -/
def Eval.framed {H : Type} (ev : Eval.Evaluator H) (fuel : Nat) : Node → Session H → Run H
  | .branch condition thenBranch elseBranch, s =>
      (ev condition s).andThen fun v s =>
        if v.truthy then ev thenBranch s
        else
          match elseBranch with
          | some node => ev node s
          | none => some (.value .null, s)
  | .forLoop init condition step code, s =>
      (ev init s).andThen fun _ s =>
        Eval.repeatWhile (ev condition) (fun s => (ev code s).andThen fun _ s => ev step s) fuel s
  | .whileLoop condition code, s =>
      Eval.repeatWhile (ev condition) (ev code) fuel s
  | .switch value cases, s =>
      (ev value s).andThen fun v s =>
        match Eval.chooseCase v cases with
        | some node => ev node s
        | none => some (.value .null, s)
  | _, s => some (.value .null, s)

/-- A construct that opens a frame does all it does inside of it. -/
theorem Eval.step_of_opensFrame
    {H : Type} (ev : Eval.Evaluator H) (fuel : Nat) {node : Node}
    (hnode : node.opensFrame = true) (s : Session H) :
    Eval.step ev fuel node s = Eval.inFrame (Eval.framed ev fuel node) s := by
  cases node with
  | branch condition thenBranch elseBranch =>
      rfl
  | forLoop init condition step code =>
      rfl
  | whileLoop condition code =>
      rfl
  | switch value cases =>
      rfl
  | _ =>
      cases hnode

/-- What makes an evaluation simulate another one of the same tree. -/
structure Simulation (H : Type) where
  /-- What is known of the two sessions while a construct is evaluated. -/
  World : Type
  Rel : World → Session H → Session H → Prop
  /-- The faults of the first evaluation that the second need not have. -/
  Waived : EvalFault → Prop := fun _ => False
  getGlobal {w : World} {s t : Session H} :
    Rel w s t → ∀ name, s.getGlobal name = t.getGlobal name
  getLocal {w : World} {s t : Session H} :
    Rel w s t → ∀ name, s.getLocal name = t.getLocal name
  getFunction {w : World} {s t : Session H} :
    Rel w s t → ∀ name, s.functions.get? name = t.functions.get? name
  getProgram {w : World} {s t : Session H} :
    Rel w s t → ∀ name, s.programs.get? name = t.programs.get? name
  loader {w : World} {s t : Session H} : Rel w s t → s.loader = t.loader
  host {w : World} {s t : Session H} : Rel w s t → s.console = t.console ∧ s.host = t.host
  calls {w : World} {s t : Session H} :
    Rel w s t → s.callDepth = t.callDepth ∧
      (s.maxCallDepth = t.maxCallDepth ∨
        s.maxCallDepth ≤ t.maxCallDepth ∧ Waived (.callLimit s.maxCallDepth))
  setGlobal {w : World} {s t : Session H} :
    Rel w s t → ∀ name value, Rel w (s.setGlobal name value) (t.setGlobal name value)
  setLocal {w : World} {s t : Session H} :
    Rel w s t → ∀ name value, Rel w (s.setLocal name value) (t.setLocal name value)
  setHost {w : World} {s t : Session H} :
    Rel w s t → ∀ host, Rel w { s with host } { t with host }
  define {w : World} {s t : Session H} :
    Rel w s t → ∀ name params body,
      Rel w (s.define name (.user params body)) (t.define name (.user params body))
  addProgram {w : World} {s t : Session H} :
    Rel w s t → ∀ program, Rel w (s.addProgram program) (t.addProgram program)
  enterScope {w : World} {s t : Session H} :
    Rel w s t → ∃ inner, Rel inner s.enterScope t.enterScope ∧
      Session.ClosesInto Waived (Rel inner) (Rel w)
  enterCall {w : World} {s t : Session H} :
    Rel w s t → ∀ bindings, ∃ body exit,
      Rel body (s.called bindings) (t.called bindings) ∧
      (∀ s t, Rel body s t → Rel exit s.exitCall t.exitCall) ∧
      Session.ClosesInto Waived (Rel exit) (Rel w)

namespace Simulation

variable {H : Type} (S : Simulation H)

/-- Evaluators of which one simulates the other in every world. -/
def Keeps (ev ev' : Eval.Evaluator H) : Prop :=
  ∀ (w : S.World) (node : Node) (s t : Session H),
    S.Rel w s t → Run.SimulatedBy S.Waived (S.Rel w) (ev node s) (ev' node t)

section Constructs

variable {S} {ev ev' : Eval.Evaluator H} (hev : S.Keeps ev ev')
variable {w : S.World} {s t : Session H}

theorem setGlobals_rel
    (bindings : List (String × Value)) (h : S.Rel w s t) :
    S.Rel w (s.setGlobals bindings) (t.setGlobals bindings) := by
  induction bindings generalizing s t with
  | nil =>
      exact h
  | cons binding rest ih =>
      exact ih (S.setGlobal h binding.1 binding.2)

include hev

/-- The statements of a block are simulated, one after the other. -/
theorem block_simulated
    (last : Value) (statements : List Node) (h : S.Rel w s t) :
    Run.SimulatedBy S.Waived (S.Rel w) (Eval.block ev last statements s)
      (Eval.block ev' last statements t) := by
  induction statements generalizing last s t with
  | nil =>
      exact .finished h
  | cons node rest ih =>
      exact (hev w node s t h).andThen fun v s t hst => ih v hst

/-- The operands are simulated one by one, and then what is done with their values. -/
theorem all_simulated
    {next next' : List Value → Session H → Run H}
    (hnext : ∀ vs s t, S.Rel w s t → Run.SimulatedBy S.Waived (S.Rel w) (next vs s) (next' vs t))
    (done : List Value) (nodes : List Node) (h : S.Rel w s t) :
    Run.SimulatedBy S.Waived (S.Rel w) (Eval.all ev next done nodes s)
      (Eval.all ev' next' done nodes t) := by
  induction nodes generalizing done s t with
  | nil =>
      exact hnext _ s t h
  | cons node rest ih =>
      exact (hev w node s t h).andThen fun v s t hst => ih (v :: done) hst

omit hev in
/-- A loop is simulated by one that may make more rounds. -/
theorem repeatWhile_simulated
    {test test' body body' : Session H → Run H}
    (htest : ∀ s t, S.Rel w s t → Run.SimulatedBy S.Waived (S.Rel w) (test s) (test' t))
    (hbody : ∀ s t, S.Rel w s t → Run.SimulatedBy S.Waived (S.Rel w) (body s) (body' t))
    {rounds rounds' : Nat} (hrounds : rounds ≤ rounds') (h : S.Rel w s t) :
    Run.SimulatedBy S.Waived (S.Rel w) (Eval.repeatWhile test body rounds s)
      (Eval.repeatWhile test' body' rounds' t) := by
  induction rounds generalizing rounds' s t with
  | zero =>
      exact .unfinished
  | succ rounds ih =>
      obtain ⟨rounds', rfl⟩ : ∃ n, rounds' = n + 1 := ⟨rounds' - 1, by omega⟩
      refine (htest s t h).andThen fun v s t hst => ?_
      split
      · exact (hbody s t hst).andThen fun _ s t hst => ih (by omega) hst
      · exact .finished hst

omit hev in
theorem inFrame_simulated
    {body body' : Session H → Run H}
    (hbody : ∀ w s t, S.Rel w s t → Run.SimulatedBy S.Waived (S.Rel w) (body s) (body' t))
    (h : S.Rel w s t) :
    Run.SimulatedBy S.Waived (S.Rel w) (Eval.inFrame body s) (Eval.inFrame body' t) := by
  -- The body runs in the world of the opened frame; closing leads back from there.
  obtain ⟨inner, hopen, hclose⟩ := S.enterScope h
  have hrun := hbody inner _ _ hopen
  unfold Eval.inFrame
  generalize body s.enterScope = run at hrun ⊢
  generalize body' t.enterScope = run' at hrun ⊢
  cases hrun with
  | unfinished =>
      exact .unfinished
  | waived hfault hst =>
      exact hclose.closeFrame_waived hst hfault _
  | @finished outcome s t hst =>
      exact hclose.closeFrame_simulated hst outcome

/-- A body runs in a world of its own, which closing its frame leads back from. -/
theorem callBody_simulated
    (body : Node) (bindings : List (String × Value)) (h : S.Rel w s t) :
    Run.SimulatedBy S.Waived (S.Rel w) (Eval.callBody ev body bindings s)
      (Eval.callBody ev' body bindings t) := by
  obtain ⟨inner, exit, hopen, hexit, hclose⟩ := S.enterCall h bindings
  have hrun := hev inner body _ _ hopen
  unfold Eval.callBody
  generalize ev body (s.called bindings) = run at hrun ⊢
  generalize ev' body (t.called bindings) = run' at hrun ⊢
  cases hrun with
  | unfinished =>
      exact .unfinished
  | waived hfault hst =>
      exact hclose.closeFrame_waived (hexit _ _ hst) hfault _
  | @finished outcome s t hst =>
      exact hclose.closeFrame_simulated (hexit s t hst) outcome.settle

/--
A call is simulated; where the limits differ, that of the first may be reached, which is
waived.
-/
theorem invoke_simulated
    (name : String) (args : List Value) (h : S.Rel w s t) :
    Run.SimulatedBy S.Waived (S.Rel w) (Eval.invoke ev name args s)
      (Eval.invoke ev' name args t) := by
  obtain ⟨hconsole, hhost⟩ := S.host h
  obtain ⟨hdepth, hmax⟩ := S.calls h
  unfold Eval.invoke
  rw [← S.getFunction h name]
  cases s.functions.get? name with
  | none =>
      exact .finished h
  | some function =>
      cases function with
      | native run =>
          have hrun : run t.console args t.host = run s.console args s.host := by
            rw [hconsole, hhost]
          simp only [hrun]
          exact .finished (S.setHost h _)
      | user params body =>
          simp only
          cases Eval.bindArguments name args params with
          | error fault =>
              exact .finished h
          | ok bindings =>
              by_cases hlimit : s.callDepth < s.maxCallDepth
              · rw [Session.enterCall_of_lt hlimit, Session.enterCall_of_lt (by omega)]
                exact callBody_simulated hev body bindings h
              · rw [Session.enterCall_of_le (Nat.not_lt.mp hlimit)]
                rcases hmax with hmax | ⟨_, hwaived⟩
                · rw [Session.enterCall_of_le (by omega), hmax]
                  exact .finished h
                · exact .waived hwaived h

omit hev in
theorem imports_simulated
    {load load' : String → Session H → Run H}
    (hload : ∀ reference s t, S.Rel w s t →
      Run.SimulatedBy S.Waived (S.Rel w) (load reference s) (load' reference t))
    (last : Value) (references : List String) (h : S.Rel w s t) :
    Run.SimulatedBy S.Waived (S.Rel w) (Eval.imports load last references s)
      (Eval.imports load' last references t) := by
  induction references generalizing last s t with
  | nil =>
      exact .finished h
  | cons reference rest ih =>
      exact (hload reference s t h).andThen fun v s t hst => ih v hst

theorem runUnit_simulated
    {load load' : String → Session H → Run H}
    (hload : ∀ reference s t, S.Rel w s t →
      Run.SimulatedBy S.Waived (S.Rel w) (load reference s) (load' reference t))
    (program : Program) (h : S.Rel w s t) :
    Run.SimulatedBy S.Waived (S.Rel w) (Eval.runUnit ev load program s)
      (Eval.runUnit ev' load' program t) := by
  refine (imports_simulated hload _ _ (setGlobals_rel _ h)).andThen fun _ s t hst => ?_
  exact (block_simulated hev _ _ hst).settle

/-- An import is simulated by one that may go through more levels of units. -/
theorem importUnit_simulated
    {depth depth' : Nat} (hdepth : depth ≤ depth') (reference : String) (h : S.Rel w s t) :
    Run.SimulatedBy S.Waived (S.Rel w) (Eval.importUnit ev depth reference s)
      (Eval.importUnit ev' depth' reference t) := by
  induction depth generalizing depth' reference s t with
  | zero =>
      exact .unfinished
  | succ depth ih =>
      obtain ⟨depth', rfl⟩ : ∃ n, depth' = n + 1 := ⟨depth' - 1, by omega⟩
      unfold Eval.importUnit
      rw [← S.loader h]
      cases Eval.loadUnit s.loader reference with
      | error fault =>
          exact .finished h
      | ok program =>
          exact runUnit_simulated hev (fun reference s t hst => ih (by omega) reference hst)
            program (S.addProgram h program)

theorem runProgram_simulated
    {depth depth' : Nat} (hdepth : depth ≤ depth') (name : String) (h : S.Rel w s t) :
    Run.SimulatedBy S.Waived (S.Rel w) (Eval.runProgram ev depth name s)
      (Eval.runProgram ev' depth' name t) := by
  unfold Eval.runProgram
  rw [← S.getProgram h name]
  cases s.programs.get? name with
  | none =>
      exact .finished h
  | some program =>
      refine runUnit_simulated hev (fun reference s t hst => ?_) program h
      exact importUnit_simulated hev hdepth reference hst

/-- What a construct does in the frame that it opens is simulated if its parts are. -/
theorem framed_simulated
    {fuel fuel' : Nat} (hfuel : fuel ≤ fuel') (node : Node) (h : S.Rel w s t) :
    Run.SimulatedBy S.Waived (S.Rel w) (Eval.framed ev fuel node s)
      (Eval.framed ev' fuel' node t) := by
  cases node with
  | branch condition thenBranch elseBranch =>
      refine (hev w condition s t h).andThen fun v s t hst => ?_
      split
      · exact hev w thenBranch s t hst
      · cases elseBranch with
        | none =>
            exact .finished hst
        | some node =>
            exact hev w node s t hst
  | forLoop init condition step code =>
      refine (hev w init s t h).andThen fun _ s t hst => ?_
      refine repeatWhile_simulated (hev w condition) (fun s t hst => ?_) hfuel hst
      exact (hev w code s t hst).andThen fun _ s t hst => hev w step s t hst
  | whileLoop condition code =>
      exact repeatWhile_simulated (hev w condition) (hev w code) hfuel h
  | switch value cases =>
      refine (hev w value s t h).andThen fun v s t hst => ?_
      cases Eval.chooseCase v cases with
      | none =>
          exact .finished hst
      | some node =>
          exact hev w node s t hst
  | _ =>
      exact .finished h

theorem step_simulated_of_opensFrame
    {fuel fuel' : Nat} (hfuel : fuel ≤ fuel') {node : Node} (hnode : node.opensFrame = true)
    (h : S.Rel w s t) :
    Run.SimulatedBy S.Waived (S.Rel w) (Eval.step ev fuel node s) (Eval.step ev' fuel' node t) := by
  rw [Eval.step_of_opensFrame ev fuel hnode, Eval.step_of_opensFrame ev' fuel' hnode]
  exact inFrame_simulated (fun w s t hst => framed_simulated hev hfuel node hst) h

/-- Every construct is simulated if its parts are. -/
theorem step_simulated
    {fuel fuel' : Nat} (hfuel : fuel ≤ fuel') (node : Node) (h : S.Rel w s t) :
    Run.SimulatedBy S.Waived (S.Rel w) (Eval.step ev fuel node s) (Eval.step ev' fuel' node t) := by
  cases node with
  | literal v =>
      exact .finished h
  | block statements =>
      exact block_simulated hev _ _ h
  | var name =>
      simp only [Eval.step, Eval.answer, S.getGlobal h name]
      exact .finished h
  | localVar name value =>
      cases value with
      | none =>
          simp only [Eval.step, Eval.answer, S.getLocal h name]
          exact .finished h
      | some value =>
          refine (hev w value s t h).andThen fun v s t hst => ?_
          have hset := S.setLocal hst name v
          simp only [Eval.answer, S.getLocal hset name]
          exact .finished hset
  | set name value =>
      exact (hev w value s t h).andThen fun v s t hst => .finished (S.setGlobal hst name v)
  | setLocal name value =>
      exact (hev w value s t h).andThen fun v s t hst => .finished (S.setLocal hst name v)
  | branch condition thenBranch elseBranch =>
      exact step_simulated_of_opensFrame hev hfuel rfl h
  | forLoop init condition step code =>
      exact step_simulated_of_opensFrame hev hfuel rfl h
  | whileLoop condition code =>
      exact step_simulated_of_opensFrame hev hfuel rfl h
  | switch value cases =>
      exact step_simulated_of_opensFrame hev hfuel rfl h
  | define name params code =>
      exact .finished (S.define h name params code)
  | call name args =>
      exact all_simulated hev (fun vs s t hst => invoke_simulated hev name vs hst) _ _ h
  | ret value =>
      exact (hev w value s t h).andThen fun v s t hst => .finished hst
  | imports references =>
      exact imports_simulated
        (fun reference s t hst => importUnit_simulated hev hfuel reference hst)
        _ _ h
  | list items =>
      refine all_simulated hev (fun vs s t hst => ?_) _ _ h
      exact .finished hst
  | operation op operands =>
      refine all_simulated hev (fun vs s t hst => ?_) _ _ h
      cases vs with
      | nil =>
          exact .finished hst
      | cons first rest =>
          simp only [Eval.combine]
          cases op.fold first rest with
          | ok v =>
              exact .finished hst
          | error mismatch =>
              exact .finished hst
  | comment =>
      exact .finished h

end Constructs

/-- An evaluation is simulated by one with as much fuel. -/
theorem keeps_eval {fuel fuel' : Nat} (hfuel : fuel ≤ fuel') :
    S.Keeps (eval fuel) (eval fuel') := by
  induction fuel generalizing fuel' with
  | zero =>
      exact fun w node s t h => .unfinished
  | succ fuel ih =>
      obtain ⟨fuel', rfl⟩ : ∃ n, fuel' = n + 1 := ⟨fuel' - 1, by omega⟩
      exact fun w node s t h => step_simulated (ih (by omega)) (by omega) node h

end Simulation

/-- What closing the current frames leads to, or failing to where there is one only. -/
def Scopes.ClosesInto (inner outer : Scopes → Scopes → Prop) : Prop :=
  ∀ a b, inner a b →
    a.atRoot = b.atRoot ∧ (a.atRoot = true → outer a b) ∧ (a.atRoot = false → outer a.pop b.pop)

/-- Frames that are opened over others can always be closed again. -/
theorem Scopes.ClosesInto.of_not_atRoot
    {inner outer : Scopes → Scopes → Prop}
    (h : ∀ a b, inner a b → a.atRoot = false ∧ b.atRoot = false ∧ outer a.pop b.pop) :
    Scopes.ClosesInto inner outer := by
  intro a b hab
  obtain ⟨ha, hb, hpop⟩ := h a b hab
  refine ⟨ha.trans hb.symm, fun hroot => ?_, fun _ => hpop⟩
  rw [ha] at hroot
  cases hroot

theorem Scopes.ClosesInto.flip
    {inner outer : Scopes → Scopes → Prop} (h : Scopes.ClosesInto inner outer) :
    Scopes.ClosesInto (fun a b => inner b a) (fun a b => outer b a) := by
  intro a b hba
  obtain ⟨hroot, hstay, hpop⟩ := h b a hba
  exact ⟨hroot.symm, fun ha => hstay (hroot.trans ha), fun ha => hpop (hroot.trans ha)⟩

/-- A relation between frames that all constructs keep. -/
structure FrameSimulation where
  World : Type
  Rel : World → Scopes → Scopes → Prop
  lookup {w : World} {a b : Scopes} :
    Rel w a b → ∀ name, a.lookup? name = b.lookup? name
  assign {w : World} {a b : Scopes} :
    Rel w a b → ∀ name value, Rel w (a.assign name value) (b.assign name value)
  push {w : World} {a b : Scopes} :
    Rel w a b → ∃ inner, Rel inner a.push b.push ∧ Scopes.ClosesInto (Rel inner) (Rel w)
  pushBound {w : World} {a b : Scopes} :
    Rel w a b → ∀ bindings, ∃ inner, Rel inner (a.pushBound bindings) (b.pushBound bindings) ∧
      Scopes.ClosesInto (Rel inner) (Rel w)

namespace FrameSimulation

variable (F : FrameSimulation) {H : Type}

/-- Sessions with related frames and nothing else between them, at a given depth of calls. -/
def InStep (w : F.World) (calls : Nat) (s t : Session H) : Prop :=
  s.callDepth = calls ∧ ∃ frames, F.Rel w s.scopes frames ∧ t = { s with scopes := frames }

/-- Frames that close into related ones leave sessions that are in step. -/
theorem inStep_closesInto
    {inner outer : F.World}
    (h : Scopes.ClosesInto (F.Rel inner) (F.Rel outer)) (calls : Nat) :
    Session.ClosesInto (fun _ => False) (F.InStep inner calls : Session H → Session H → Prop)
      (F.InStep outer calls) := by
  rintro s _ ⟨hcalls, frames, hst, rfl⟩
  obtain ⟨hroot, hstay, hpop⟩ := h _ _ hst
  exact ⟨hroot, fun hs => ⟨⟨hcalls, frames, hstay hs, rfl⟩, fun _ => id⟩,
    fun hs => ⟨hcalls, frames.pop, hpop hs, rfl⟩⟩

/-- It is enough to look at frames, as calls are counted back by every construct. -/
def toSimulation : Simulation H where
  World := F.World × Nat
  Rel w := F.InStep w.1 w.2
  getGlobal := by
    rintro w s _ ⟨_, frames, _, rfl⟩ name
    rfl
  getLocal := by
    rintro w s _ ⟨_, frames, h, rfl⟩ name
    simp only [Session.getLocal, F.lookup h name]
  getFunction := by
    rintro w s _ ⟨_, frames, _, rfl⟩ name
    rfl
  getProgram := by
    rintro w s _ ⟨_, frames, _, rfl⟩ name
    rfl
  loader := by
    rintro w s _ ⟨_, frames, _, rfl⟩
    rfl
  host := by
    rintro w s _ ⟨_, frames, _, rfl⟩
    exact ⟨rfl, rfl⟩
  calls := by
    rintro w s _ ⟨_, frames, _, rfl⟩
    exact ⟨rfl, .inl rfl⟩
  setGlobal := by
    rintro w s _ ⟨hcalls, frames, h, rfl⟩ name value
    exact ⟨hcalls, frames, h, rfl⟩
  setLocal := by
    rintro w s _ ⟨hcalls, frames, h, rfl⟩ name value
    exact ⟨hcalls, frames.assign name value, F.assign h name value, rfl⟩
  setHost := by
    rintro w s _ ⟨hcalls, frames, h, rfl⟩ host
    exact ⟨hcalls, frames, h, rfl⟩
  define := by
    rintro w s _ ⟨hcalls, frames, h, rfl⟩ name params body
    exact ⟨hcalls, frames, h, rfl⟩
  addProgram := by
    rintro w s _ ⟨hcalls, frames, h, rfl⟩ program
    exact ⟨hcalls, frames, h, rfl⟩
  enterScope := by
    rintro w s _ ⟨hcalls, frames, h, rfl⟩
    obtain ⟨inner, hopen, hclose⟩ := F.push h
    exact ⟨(inner, w.2), ⟨hcalls, frames.push, hopen, rfl⟩, F.inStep_closesInto hclose w.2⟩
  enterCall := by
    rintro w s _ ⟨hcalls, frames, h, rfl⟩ bindings
    obtain ⟨inner, hopen, hclose⟩ := F.pushBound h bindings
    refine ⟨(inner, w.2 + 1), (inner, w.2), ?_, ?_, F.inStep_closesInto hclose w.2⟩
    · simp only [Session.called_eq]
      exact ⟨by simp [hcalls], frames.pushBound bindings, hopen, rfl⟩
    · rintro s _ ⟨hcalls, frames, h, rfl⟩
      exact ⟨by simp [Session.exitCall, hcalls], frames, h, rfl⟩

/-- The same relation, read from the other side. -/
def flip : FrameSimulation where
  World := F.World
  Rel w a b := F.Rel w b a
  lookup h name := (F.lookup h name).symm
  assign h name value := F.assign h name value
  push h := by
    obtain ⟨inner, hopen, hclose⟩ := F.push h
    exact ⟨inner, hopen, hclose.flip⟩
  pushBound h bindings := by
    obtain ⟨inner, hopen, hclose⟩ := F.pushBound h bindings
    exact ⟨inner, hopen, hclose.flip⟩

theorem InStep.flip
    {F : FrameSimulation} {w : F.World} {calls : Nat} {s t : Session H}
    (h : F.InStep w calls s t) : F.flip.InStep w calls t s := by
  obtain ⟨hcalls, frames, hst, rfl⟩ := h
  exact ⟨hcalls, s.scopes, hst, rfl⟩

/-- With the same fuel, both evaluations finish or neither does. -/
theorem InStep.eval_cases
    {F : FrameSimulation} {w : F.World} {calls : Nat} {s t : Session H}
    (h : F.InStep w calls s t) (fuel : Nat) (node : Node) :
    (eval fuel node s = none ∧ eval fuel node t = none) ∨
    ∃ outcome s' t', eval fuel node s = some (outcome, s') ∧
      eval fuel node t = some (outcome, t') ∧ F.InStep w calls s' t' := by
  cases hs : eval fuel node s with
  | some finished =>
      obtain ⟨outcome, s'⟩ := finished
      have hforward :=
        F.toSimulation.keeps_eval (Nat.le_refl fuel) (w, calls) node s t h
      obtain ⟨t', ht, hst⟩ := hforward.exists_of_eq_some hs
      exact Or.inr ⟨outcome, s', t', rfl, ht, hst⟩
  | none =>
      cases ht : eval fuel node t with
      | none =>
          exact Or.inl ⟨rfl, rfl⟩
      | some finished =>
          obtain ⟨outcome, t'⟩ := finished
          have hbackward :=
            F.flip.toSimulation.keeps_eval (Nat.le_refl fuel) (w, calls) node t s h.flip
          obtain ⟨s', hs', _⟩ := hbackward.exists_of_eq_some ht
          rw [hs] at hs'
          cases hs'

end FrameSimulation
end DocScript
