import DocScript.Proofs.Balance
import Mathlib.Order.Filter.AtTopBot.Basic

/-!
# Evaluations that finish

What an evaluation comes to does not depend on the fuel it is given, as long as it
is enough. So a tree *finishes* with an outcome and a session, and with one only.

An evaluation that finishes does so with any large amount of fuel. This is how
evaluations are put together: of finitely many parts that finish, all do with the
same fuel. Parts that are evaluated one after the other, and rounds of a loop that
are completed, are described here as `Values` and `Rounds`.
-/

namespace DocScript

open Filter

/-- Frames beside themselves. -/
def FrameSimulation.identity : FrameSimulation where
  World := Unit
  Rel _ a b := a = b
  lookup h name := by rw [h]
  assign h name value := by rw [h]
  push h := by
    refine ⟨(), by rw [h], ?_⟩
    rintro a _ rfl
    exact ⟨rfl, fun _ => rfl, fun _ => rfl⟩
  pushBound h bindings := by
    refine ⟨(), by rw [h], ?_⟩
    rintro a _ rfl
    exact ⟨rfl, fun _ => rfl, fun _ => rfl⟩

variable {H : Type}

/-- A session is in step with itself. -/
theorem Session.inStep_self (s : Session H) :
    FrameSimulation.identity.InStep () s.callDepth s s :=
  ⟨rfl, s.scopes, rfl, rfl⟩

/-- A run beside itself with more fuel comes to the same. -/
theorem Run.SimulatedBy.eq_some_of_identity
    {calls : Nat} {run run' : Run H} {outcome : Outcome} {s' : Session H}
    (h : Run.SimulatedBy (fun _ => False) (FrameSimulation.identity.InStep () calls) run run')
    (hrun : run = some (outcome, s')) : run' = some (outcome, s') := by
  obtain ⟨_, hrun', _, frames, hframes, rfl⟩ := h.exists_of_eq_some hrun
  cases hframes
  exact hrun'

/-- More fuel does not change what an evaluation comes to. -/
theorem eval_mono
    {fuel fuel' : Nat} {node : Node} {s s' : Session H} {outcome : Outcome}
    (hfuel : fuel ≤ fuel') (h : eval fuel node s = some (outcome, s')) :
    eval fuel' node s = some (outcome, s') :=
  (FrameSimulation.identity.toSimulation.keeps_eval hfuel ((), s.callDepth) node s s
    s.inStep_self).eq_some_of_identity h

/-- More fuel does not change what a call comes to. -/
theorem Eval.invoke_mono
    {fuel fuel' : Nat} {name : String} {args : List Value} {s s' : Session H} {outcome : Outcome}
    (hfuel : fuel ≤ fuel') (h : Eval.invoke (eval fuel) name args s = some (outcome, s')) :
    Eval.invoke (eval fuel') name args s = some (outcome, s') :=
  (Simulation.invoke_simulated (FrameSimulation.identity.toSimulation.keeps_eval hfuel) name args
    (w := ((), s.callDepth)) s.inStep_self).eq_some_of_identity h

/-- More fuel does not change what an import comes to. -/
theorem Eval.importUnit_mono
    {fuel fuel' depth : Nat} {reference : String} {s s' : Session H} {outcome : Outcome}
    (hfuel : fuel ≤ fuel')
    (h : Eval.importUnit (eval fuel) depth reference s = some (outcome, s')) :
    Eval.importUnit (eval fuel') depth reference s = some (outcome, s') :=
  (Simulation.importUnit_simulated (FrameSimulation.identity.toSimulation.keeps_eval hfuel)
    (Nat.le_refl depth) reference (w := ((), s.callDepth)) s.inStep_self).eq_some_of_identity h

/-- With enough fuel, a tree comes to an outcome and leaves a session. -/
def Finishes (node : Node) (s : Session H) (outcome : Outcome) (s' : Session H) : Prop :=
  ∃ fuel, eval fuel node s = some (outcome, s')

namespace Finishes

variable {node : Node} {s s' : Session H} {outcome : Outcome}

theorem eventually (h : Finishes node s outcome s') :
    ∀ᶠ fuel in atTop, eval fuel node s = some (outcome, s') := by
  obtain ⟨fuel, heval⟩ := h
  filter_upwards [eventually_ge_atTop fuel] with fuel' hfuel
  exact eval_mono hfuel heval

/-- A tree finishes if one step of it does with enough fuel. -/
theorem of_eventually_step
    (h : ∀ᶠ fuel in atTop, Eval.step (eval fuel) fuel node s = some (outcome, s')) :
    Finishes node s outcome s' := by
  obtain ⟨fuel, hstep⟩ := h.exists
  exact ⟨fuel + 1, hstep⟩

/-- A tree finishes in one way only. -/
theorem unique
    {outcome' : Outcome} {s'' : Session H}
    (h : Finishes node s outcome s') (h' : Finishes node s outcome' s'') :
    outcome = outcome' ∧ s' = s'' := by
  obtain ⟨fuel, heval, heval'⟩ := (h.eventually.and h'.eventually).exists
  rw [heval] at heval'
  cases heval'
  exact ⟨rfl, rfl⟩

theorem depth_eq (hframe : 0 < s.scopes.depth) (h : Finishes node s outcome s') :
    s'.scopes.depth = s.scopes.depth := by
  obtain ⟨fuel, heval⟩ := h
  exact (eval_restores hframe fuel node outcome s' heval).frames.depth

end Finishes

/-- Trees that have values when they are evaluated one after the other. -/
inductive Values : List Node → Session H → List Value → Session H → Prop
  | nil {s : Session H} : Values [] s [] s
  | cons
      {node : Node} {rest : List Node} {v : Value} {vs : List Value} {s s₁ s₂ : Session H}
      (hfirst : Finishes node s (.value v) s₁)
      (hrest : Values rest s₁ vs s₂) :
      Values (node :: rest) s (v :: vs) s₂

namespace Values

variable {nodes : List Node} {vs : List Value} {s s' : Session H}

theorem depth_eq (hframe : 0 < s.scopes.depth) (h : Values nodes s vs s') :
    s'.scopes.depth = s.scopes.depth := by
  induction h with
  | nil =>
      rfl
  | cons hfirst _ ih =>
      have hdepth := hfirst.depth_eq hframe
      rw [ih (by omega), hdepth]

/-- Statements that come to values are passed by, and the block goes on after them. -/
theorem eventually_block (h : Values nodes s vs s') (after : List Node) (last : Value) :
    ∀ᶠ fuel in atTop, ∃ last', Eval.block (eval fuel) last (nodes ++ after) s =
      Eval.block (eval fuel) last' after s' := by
  induction h generalizing last with
  | nil =>
      exact .of_forall fun fuel => ⟨last, rfl⟩
  | @cons node rest v vs s s₁ s₂ hfirst _ ih =>
      filter_upwards [hfirst.eventually, ih v] with fuel hnode hrest
      obtain ⟨last', hblock⟩ := hrest
      refine ⟨last', ?_⟩
      rw [← hblock, List.cons_append, Eval.block, hnode, Run.andThen_value]

/-- Operands that come to values are passed by, and their values are kept. -/
theorem eventually_all
    (h : Values nodes s vs s') (after : List Node) (done : List Value)
    (next : Nat → List Value → Session H → Run H) :
    ∀ᶠ fuel in atTop, Eval.all (eval fuel) (next fuel) done (nodes ++ after) s =
      Eval.all (eval fuel) (next fuel) (vs.reverse ++ done) after s' := by
  induction h generalizing done with
  | nil =>
      exact .of_forall fun fuel => rfl
  | @cons node rest v vs s s₁ s₂ hfirst _ ih =>
      filter_upwards [hfirst.eventually, ih (v :: done)] with fuel hnode hrest
      rw [List.cons_append, Eval.all, hnode, Run.andThen_value, hrest]
      simp

end Values

/-- Rounds of a loop that are completed: the test holds, and the parts have values. -/
inductive Rounds (test : Node) (parts : List Node) : Session H → Session H → Prop
  | none {s : Session H} : Rounds test parts s s
  | more
      {v : Value} {vs : List Value} {s s₁ s₂ s₃ : Session H}
      (htest : Finishes test s (.value v) s₁)
      (htruthy : v.truthy = true)
      (hparts : Values parts s₁ vs s₂)
      (hrest : Rounds test parts s₂ s₃) :
      Rounds test parts s s₃

/-- A loop over parts that are evaluated one after the other in each round. -/
def Eval.loop (ev : Eval.Evaluator H) (test : Node) (parts : List Node) :
    Nat → Session H → Run H :=
  Eval.repeatWhile (ev test) (Eval.block ev .null parts)

theorem Eval.loop_single (ev : Eval.Evaluator H) (test code : Node) :
    Eval.repeatWhile (ev test) (ev code) = Eval.loop ev test [code] := by
  unfold Eval.loop
  congr 1
  funext s
  exact (Run.andThen_some_value _).symm

theorem Eval.loop_pair (ev : Eval.Evaluator H) (test code step : Node) :
    Eval.repeatWhile (ev test) (fun s => (ev code s).andThen fun _ s => ev step s) =
      Eval.loop ev test [code, step] := by
  unfold Eval.loop
  congr 1
  funext s
  simp only [Eval.block, Run.andThen_some_value]

namespace Rounds

variable {test : Node} {parts : List Node} {s s' : Session H}

theorem depth_eq (hframe : 0 < s.scopes.depth) (h : Rounds test parts s s') :
    s'.scopes.depth = s.scopes.depth := by
  induction h with
  | none =>
      rfl
  | more htest _ hparts _ ih =>
      have hdepth := htest.depth_eq hframe
      have hdepth' := hparts.depth_eq (by omega)
      rw [ih (by omega), hdepth', hdepth]

/-- Whole rounds are passed by, and the loop goes on after them. -/
theorem eventually_loop (h : Rounds test parts s s') :
    ∃ count, ∀ᶠ fuel in atTop, ∀ rounds,
      Eval.loop (eval fuel) test parts (count + rounds) s =
        Eval.loop (eval fuel) test parts rounds s' := by
  induction h with
  | none =>
      exact ⟨0, .of_forall fun fuel rounds => by rw [Nat.zero_add]⟩
  | @more v vs s s₁ s₂ s₃ htest htruthy hparts _ ih =>
      obtain ⟨count, hrest⟩ := ih
      have hblock := hparts.eventually_block [] .null
      rw [List.append_nil] at hblock
      refine ⟨count + 1, ?_⟩
      filter_upwards [htest.eventually, hblock, hrest] with fuel htest hblock hrest rounds
      obtain ⟨last, hblock⟩ := hblock
      have hcount : count + 1 + rounds = (count + rounds) + 1 := by
        omega
      rw [← hrest rounds, hcount]
      unfold Eval.loop
      rw [Eval.repeatWhile, htest, Run.andThen_value, if_pos htruthy, hblock, Eval.block,
        Run.andThen_value]

theorem eventually_loop_eq
    (h : Rounds test parts s s') {run : Run H}
    (hround : ∀ᶠ fuel in atTop, ∀ rounds,
      Eval.loop (eval fuel) test parts (rounds + 1) s' = run) :
    ∀ᶠ fuel in atTop, Eval.loop (eval fuel) test parts fuel s = run := by
  -- The rounds that a loop is given grow with its fuel, so one is left after those completed.
  obtain ⟨count, hcount⟩ := h.eventually_loop
  filter_upwards [hcount, hround, eventually_gt_atTop count] with fuel hcount hround hfuel
  obtain ⟨rounds, rfl⟩ : ∃ n, fuel = count + (n + 1) := ⟨fuel - count - 1, by omega⟩
  rw [hcount, hround]

end Rounds

end DocScript
