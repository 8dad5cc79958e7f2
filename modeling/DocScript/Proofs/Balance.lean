import DocScript.Proofs.Simulation

/-!
# Frames and calls are balanced

Every construct that opens a frame closes it, and every call that is counted is
counted back, whatever the evaluation comes to: a value, a `return` on its way
out, or a fault. A session is left with as many frames as it had, each continuing
the one it continued before.

The argument is a simulation of a session by itself. Its world is the shape that
the frames have while a construct is evaluated.
-/

namespace DocScript

/-- Frames that are as many, and that continue the same ones. -/
structure Scopes.SameShape (a b : Scopes) : Prop where
  depth : a.depth = b.depth
  parent : ∀ index, (a.frame index).parent = (b.frame index).parent

namespace Scopes.SameShape

variable {a b : Scopes}

theorem refl (a : Scopes) : a.SameShape a :=
  ⟨rfl, fun _ => rfl⟩

theorem assign (h : a.SameShape b) (name : String) (value : Value) :
    (a.assign name value).SameShape b := by
  refine ⟨?_, fun index => ?_⟩
  · rw [depth_assign, h.depth]
  · unfold Scopes.assign
    rw [parent_bindAt, h.parent]

theorem current (h : a.SameShape b) : a.current = b.current := by
  have hdepth := h.depth
  unfold Scopes.depth at hdepth
  unfold Scopes.current
  rw [hdepth]

theorem pushFrame {frame frame' : Frame} (h : a.SameShape b)
    (hlink : frame.parent = frame'.parent) :
    (a.pushFrame frame).SameShape (b.pushFrame frame') := by
  refine ⟨?_, fun index => ?_⟩
  · rw [depth_pushFrame, depth_pushFrame, h.depth]
  · rw [frame_pushFrame, frame_pushFrame, h.depth]
    split
    · exact hlink
    · exact h.parent index

theorem pop (h : a.SameShape b) : a.pop.SameShape b.pop := by
  refine ⟨?_, fun index => ?_⟩
  · rw [depth_pop, depth_pop, h.depth]
  · rw [frame_pop, frame_pop, h.depth]
    split
    · exact h.parent index
    · rfl

end Scopes.SameShape

/-- Frames beside themselves, of a given shape. -/
def Scopes.OfShape (shape a b : Scopes) : Prop :=
  a = b ∧ 0 < shape.depth ∧ a.SameShape shape

/-- Closing a frame leads back to the shape it was opened on. -/
theorem Scopes.closesInto_ofShape {shape : Scopes} (frame : Frame) (hshape : 0 < shape.depth) :
    Scopes.ClosesInto (Scopes.OfShape (shape.pushFrame frame)) (Scopes.OfShape shape) := by
  apply Scopes.ClosesInto.of_not_atRoot
  rintro a _ ⟨rfl, _, hsame⟩
  have hdepth := hsame.depth
  rw [Scopes.depth_pushFrame] at hdepth
  have hroot := a.atRoot_eq_false (by omega)
  have hpop := hsame.pop
  rw [Scopes.pop_pushFrame] at hpop
  exact ⟨hroot, hroot, rfl, hshape, hpop⟩

/-- Constructs keep the shape of the frames. -/
def FrameSimulation.balance : FrameSimulation where
  World := Scopes
  Rel := Scopes.OfShape
  lookup := by
    rintro shape a _ ⟨rfl, _, _⟩ name
    rfl
  assign := by
    rintro shape a _ ⟨rfl, hshape, hsame⟩ name value
    exact ⟨rfl, hshape, hsame.assign name value⟩
  push := by
    rintro shape a _ ⟨rfl, hshape, hsame⟩
    refine ⟨shape.pushFrame ⟨.empty, some a.current⟩, ?_, Scopes.closesInto_ofShape _ hshape⟩
    exact ⟨rfl, by simp, hsame.pushFrame rfl⟩
  pushBound := by
    rintro shape a _ ⟨rfl, hshape, hsame⟩ bindings
    refine ⟨shape.pushBound bindings, ?_, Scopes.closesInto_ofShape _ hshape⟩
    exact ⟨rfl, by simp [Scopes.pushBound], hsame.pushFrame rfl⟩

section Sessions

variable {H : Type}

/-- A session with the frames, the links between them and the calls of another. -/
structure Session.Balanced (s s' : Session H) : Prop where
  frames : s'.scopes.SameShape s.scopes
  callDepth : s'.callDepth = s.callDepth

/-- Whatever the run comes to, frames and calls are as they were in a session. -/
def Run.Restores (run : Run H) (s : Session H) : Prop :=
  ∀ outcome s', run = some (outcome, s') → s.Balanced s'

theorem Run.SimulatedBy.restores
    {run : Run H} {s : Session H}
    (h : Run.SimulatedBy (fun _ => False)
      (FrameSimulation.balance.toSimulation.Rel (s.scopes, s.callDepth)) run run) :
    run.Restores s := by
  intro outcome s' hrun
  obtain ⟨_, _, hcalls, _, ⟨_, _, hsame⟩, _⟩ := h.exists_of_eq_some hrun
  exact ⟨hsame, hcalls⟩

theorem Session.balance_self {s : Session H} (hframe : 0 < s.scopes.depth) :
    FrameSimulation.balance.toSimulation.Rel (s.scopes, s.callDepth) s s :=
  ⟨rfl, s.scopes, ⟨rfl, hframe, .refl _⟩, rfl⟩

/-- Evaluation keeps the frames and calls of any session in balance. -/
theorem Simulation.balance_keeps_eval (fuel : Nat) :
    FrameSimulation.balance.toSimulation.Keeps (eval fuel : Eval.Evaluator H) (eval fuel) :=
  FrameSimulation.balance.toSimulation.keeps_eval (Nat.le_refl _)

section Restoring

variable {s : Session H} (hframe : 0 < s.scopes.depth) (fuel : Nat)

include hframe

/-- Evaluation of a tree restores frames and calls. -/
theorem eval_restores (node : Node) : (eval fuel node s).Restores s :=
  (Simulation.balance_keeps_eval fuel _ node s s (Session.balance_self hframe)).restores

theorem block_restores (statements : List Node) :
    (Eval.block (eval fuel) .null statements s).Restores s :=
  (Simulation.block_simulated (Simulation.balance_keeps_eval fuel) .null statements
    (Session.balance_self hframe)).restores

/-- A call restores frames and calls, whether it is refused, fails or returns. -/
theorem invoke_restores (name : String) (args : List Value) :
    (Eval.invoke (eval fuel) name args s).Restores s :=
  (Simulation.invoke_simulated (Simulation.balance_keeps_eval fuel) name args
    (Session.balance_self hframe)).restores

/-- An import restores frames and calls, at any level of units that import others. -/
theorem importUnit_restores (levels : Nat) (reference : String) :
    (Eval.importUnit (eval fuel) levels reference s).Restores s :=
  (Simulation.importUnit_simulated (Simulation.balance_keeps_eval fuel) (Nat.le_refl _) reference
    (Session.balance_self hframe)).restores

theorem runProgram_restores (levels : Nat) (name : String) :
    (Eval.runProgram (eval fuel) levels name s).Restores s :=
  (Simulation.runProgram_simulated (Simulation.balance_keeps_eval fuel) (Nat.le_refl _) name
    (Session.balance_self hframe)).restores

end Restoring

/--
Frames and calls are restored on every way out: of a tree, of a block, of a call,
of an import and of a run of a unit.
-/
theorem frames_and_calls_restored
    {s : Session H} (hframe : 0 < s.scopes.depth) (fuel : Nat) :
    (∀ node, (eval fuel node s).Restores s) ∧
    (∀ statements, (Eval.block (eval fuel) .null statements s).Restores s) ∧
    (∀ name args, (Eval.invoke (eval fuel) name args s).Restores s) ∧
    (∀ depth reference, (Eval.importUnit (eval fuel) depth reference s).Restores s) ∧
    (∀ depth name, (Eval.runProgram (eval fuel) depth name s).Restores s) :=
  ⟨eval_restores hframe fuel, block_restores hframe fuel, invoke_restores hframe fuel,
    importUnit_restores hframe fuel, runProgram_restores hframe fuel⟩

end Sessions

/-- A session on a host that takes all output and has no units. -/
def Session.quiet : Session Unit where
  host := ()
  console := ⟨fun _ host => (.ok (), host), fun host => (.ok (), host)⟩
  loader := fun reference => .error (.notFound reference)

/-- A call that fails inside a frame of the body. -/
def Node.failingCall : Node :=
  .block
    [.define "f" (.fixed []) (.branch (.literal (.boolean true)) (.var "missing") none),
      .call "f" []]

theorem frames_and_calls_restored_by_failingCall :
    0 < Session.quiet.scopes.depth ∧
    ∃ s', eval 5 Node.failingCall Session.quiet = some (.failed (.undefinedGlobal "missing"), s') ∧
      Session.quiet.Balanced s' :=
  ⟨by decide, _, rfl, (frames_and_calls_restored (by decide) 5).1 Node.failingCall _ _ rfl⟩

end DocScript
