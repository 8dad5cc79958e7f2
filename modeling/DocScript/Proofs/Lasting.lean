import DocScript.Proofs.Simulation

/-!
# What evaluation leaves in place

Evaluation changes the state of the host, variables, frames, units and the depth of calls,
and it defines functions. A property of sessions *lasts* if it looks at none of the former
and definitions keep it. What lasts holds after an evaluation if it held before, whatever
the evaluation comes to: this is the simulation of a session by itself.

**Results.**
* `Session.Lasting.eval`, `Session.Lasting.invoke`, `Session.Lasting.importUnit`,
  `Session.Lasting.runProgram`: what lasts holds after evaluations, calls, imports and runs
  of units.
* `Session.lasting_loader`: the loader stays.
-/

namespace DocScript

variable {H : Type}

/-- A property that no evaluation ends. -/
structure Session.Lasting (P : Session H → Prop) : Prop where
  unaffected {s : Session H} : P s → ∀ host globals scopes programs callDepth,
    P { s with host, globals, scopes, programs, callDepth }
  define {s : Session H} : P s → ∀ name params body, P (s.define name (.user params body))

/-- A session beside itself, with a property that lasts. -/
def Simulation.lasting {P : Session H → Prop} (hP : Session.Lasting P) : Simulation H where
  World := Unit
  Rel _ s t := s = t ∧ P s
  getGlobal := by
    rintro _ _ _ ⟨rfl, _⟩ _
    rfl
  getLocal := by
    rintro _ _ _ ⟨rfl, _⟩ _
    rfl
  getFunction := by
    rintro _ _ _ ⟨rfl, _⟩ _
    rfl
  getProgram := by
    rintro _ _ _ ⟨rfl, _⟩ _
    rfl
  loader := by
    rintro _ _ _ ⟨rfl, _⟩
    rfl
  host := by
    rintro _ _ _ ⟨rfl, _⟩
    exact ⟨rfl, rfl⟩
  calls := by
    rintro _ _ _ ⟨rfl, _⟩
    exact ⟨rfl, .inl rfl⟩
  setGlobal := by
    rintro _ s _ ⟨rfl, hs⟩ _ _
    exact ⟨rfl, hP.unaffected hs _ _ _ _ _⟩
  setLocal := by
    rintro _ s _ ⟨rfl, hs⟩ _ _
    exact ⟨rfl, hP.unaffected hs _ _ _ _ _⟩
  setHost := by
    rintro _ s _ ⟨rfl, hs⟩ _
    exact ⟨rfl, hP.unaffected hs _ _ _ _ _⟩
  define := by
    rintro _ s _ ⟨rfl, hs⟩ name params body
    exact ⟨rfl, hP.define hs name params body⟩
  addProgram := by
    rintro _ s _ ⟨rfl, hs⟩ _
    exact ⟨rfl, hP.unaffected hs _ _ _ _ _⟩
  enterScope := by
    rintro _ s _ ⟨rfl, hs⟩
    refine ⟨(), ⟨rfl, hP.unaffected hs _ _ _ _ _⟩, ?_⟩
    rintro s _ ⟨rfl, hs⟩
    exact ⟨rfl, fun _ => ⟨⟨rfl, hs⟩, fun _ => id⟩, fun _ => ⟨rfl, hP.unaffected hs _ _ _ _ _⟩⟩
  enterCall := by
    rintro _ s _ ⟨rfl, hs⟩ bindings
    refine ⟨(), (), ⟨rfl, ?_⟩, ?_, ?_⟩
    · rw [Session.called_eq]
      exact hP.unaffected hs _ _ _ _ _
    · rintro s _ ⟨rfl, hs⟩
      exact ⟨rfl, hP.unaffected hs _ _ _ _ _⟩
    · rintro s _ ⟨rfl, hs⟩
      exact ⟨rfl, fun _ => ⟨⟨rfl, hs⟩, fun _ => id⟩, fun _ => ⟨rfl, hP.unaffected hs _ _ _ _ _⟩⟩

namespace Session.Lasting

variable {P : Session H → Prop} (hP : Lasting P)
variable {fuel depth : Nat} {s s' : Session H} {outcome : Outcome}

include hP

/-- A property that lasts holds of the session that a run ends in. -/
theorem of_simulated
    {run : Run H}
    (h : Run.SimulatedBy (fun _ => False) ((Simulation.lasting hP).Rel ()) run run)
    (hrun : run = some (outcome, s')) : P s' := by
  obtain ⟨_, _, _, hs'⟩ := h.exists_of_eq_some hrun
  exact hs'

theorem keeps_eval (fuel : Nat) :
    (Simulation.lasting hP).Keeps (DocScript.eval fuel) (DocScript.eval fuel) :=
  (Simulation.lasting hP).keeps_eval (Nat.le_refl fuel)

/-- What lasts holds after an evaluation. -/
theorem eval
    {node : Node} (hs : P s) (heval : DocScript.eval fuel node s = some (outcome, s')) : P s' :=
  hP.of_simulated (hP.keeps_eval fuel () node s s ⟨rfl, hs⟩) heval

theorem invoke
    {name : String} {args : List Value} (hs : P s)
    (h : Eval.invoke (DocScript.eval fuel) name args s = some (outcome, s')) : P s' :=
  hP.of_simulated (Simulation.invoke_simulated (hP.keeps_eval fuel) name args ⟨rfl, hs⟩) h

theorem importUnit
    {reference : String} (hs : P s)
    (h : Eval.importUnit (DocScript.eval fuel) depth reference s = some (outcome, s')) : P s' :=
  hP.of_simulated
    (Simulation.importUnit_simulated (hP.keeps_eval fuel) (Nat.le_refl depth) reference ⟨rfl, hs⟩)
    h

/-- What lasts holds after a run of a unit. -/
theorem runProgram
    {name : String} (hs : P s)
    (h : Eval.runProgram (DocScript.eval fuel) depth name s = some (outcome, s')) : P s' :=
  hP.of_simulated
    (Simulation.runProgram_simulated (hP.keeps_eval fuel) (Nat.le_refl depth) name ⟨rfl, hs⟩) h

end Session.Lasting

/-- No evaluation exchanges the loader. -/
theorem Session.lasting_loader (loader : Loader) :
    Session.Lasting fun s : Session H => s.loader = loader where
  unaffected hs _ _ _ _ _ := hs
  define hs _ _ _ := hs

end DocScript
