import DocScript.Proofs.LocalNames

/-!
# Code without imports does not depend on the loader

A tree without an import may still call functions, and it may define and replace functions
while it runs. So what it does is confined only if no function has an import in its code,
and this has to last while functions change.

Then the loader and the table of units can be exchanged for any others. The evaluation takes
the same course step by step, and leaves the units of its session as they are. This is the
lockstep of a session with itself in which all names stay and the units do not.

**Results.**
* `Session.renamedTo_otherUnits`: a session in lockstep with itself that has other units.
* `importFree_confined`: evaluation without imports leaves the units as they are, and comes to
  the same with any other loader and any other units.
-/

namespace DocScript

variable {H : Type}

/-- The same outcome, where all names stay. -/
theorem Outcome.RenamedTo.eq_of_id {outcome outcome' : Outcome}
    (h : outcome.RenamedTo id outcome') : outcome' = outcome := by
  cases h with
  | same outcome =>
      rfl
  | unbound name =>
      rfl

/-- All names stay, and the second session has units of its own. -/
theorem Session.renamedTo_otherUnits {s : Session H} (hs : s.ImportFree)
    (loader : Loader) (programs : Table Program) :
    s.RenamedTo id { s with loader, programs } s { s with loader, programs } := by
  refine ⟨hs, rfl, rfl, ?_⟩
  rw [Session.renameLocals_id]

section Runs

variable {start start' : Session H} {run run' : Run H}
variable (h : Run.InLockstep id (Session.RenamedTo id start start') run run')

include h

/-- Whatever the first run comes to, it has the table of units it started with. -/
theorem Run.InLockstep.keeps_units
    {outcome : Outcome} {s : Session H} (hrun : run = some (outcome, s)) :
    s.programs = start.programs ∧ s.ImportFree := by
  subst hrun
  cases h with
  | finished _ hst =>
      exact ⟨hst.programs, hst.importFree⟩

/-- The second run is the first one, with the units that the second session started with. -/
theorem Run.InLockstep.eq_map_units :
    run' = run.map fun (outcome, s) =>
      (outcome, { s with loader := start'.loader, programs := start'.programs }) := by
  cases h with
  | unfinished =>
      rfl
  | finished houtcome hst =>
      have hsession := hst.eq_renameLocals
      rw [Session.renameLocals_id] at hsession
      rw [houtcome.eq_of_id, hsession]
      rfl

end Runs

/--
Evaluation of a tree without imports, where no function has an import in its code either,
is confined: it leaves the table of units as it is, all functions stay without imports, and
with any other loader and any other table of units it comes to the same outcome and the same
session, but for the units.
-/
theorem importFree_confined
    {node : Node} (hnode : node.ImportFree)
    {s : Session H} (hs : s.ImportFree)
    (fuel : Nat) :
    (∀ outcome s', eval fuel node s = some (outcome, s') →
      s'.programs = s.programs ∧ s'.ImportFree) ∧
    ∀ (loader : Loader) (programs : Table Program),
      eval fuel node { s with loader, programs } =
        (eval fuel node s).map fun (outcome, s') => (outcome, { s' with loader, programs }) := by
  have hrun : ∀ (loader : Loader) (programs : Table Program),
      Run.InLockstep id (Session.RenamedTo id s { s with loader, programs })
        (eval fuel node s) (eval fuel node { s with loader, programs }) := by
    intro loader programs
    have hstart := Session.renamedTo_otherUnits hs loader programs
    have hkeeps := (Lockstep.renaming Function.injective_id s _).eval_inLockstep fuel node s _
      hnode hstart
    change Run.InLockstep id _ _ (eval fuel (node.renameLocals id) _) at hkeeps
    rw [Node.renameLocals_id] at hkeeps
    exact hkeeps
  refine ⟨fun outcome s' heval => ?_, fun loader programs => ?_⟩
  · exact (hrun s.loader s.programs).keeps_units heval
  · exact (hrun loader programs).eq_map_units

/-- Defines a function that calls another one, and calls it. -/
def Node.defineThenCall : Node :=
  .block
    [.define "h" (.fixed ["y"]) (.set "z" (.call "f" [.localVar "y" none])),
      .call "h" [.list []]]

theorem importFree_confined_defineThenCall :
    Node.defineThenCall.ImportFree ∧ Session.parameterNamed.ImportFree ∧
    ∃ s', eval 8 Node.defineThenCall Session.parameterNamed =
        some (.value (.list [.null]), s') ∧
      s'.programs = .empty ∧ s'.ImportFree ∧
      eval 8 Node.defineThenCall
          { Session.parameterNamed with
            loader := fun _ => .ok "{}"
            programs := ⟨[("lib", ⟨"lib", [], [], []⟩)]⟩ } =
        some (.value (.list [.null]),
          { s' with
            loader := fun _ => .ok "{}"
            programs := ⟨[("lib", ⟨"lib", [], [], []⟩)]⟩ }) := by
  have hcode : (Node.set "z" (.call "f" [.localVar "y" none])).ImportFree := by
    refine .intro trivial (List.forall_mem_singleton.mpr (.intro trivial ?_))
    exact List.forall_mem_singleton.mpr (.leaf trivial rfl)
  have hnode : Node.defineThenCall.ImportFree := by
    refine .intro trivial (List.forall_mem_cons.mpr ⟨.intro trivial ?_, ?_⟩)
    · exact List.forall_mem_singleton.mpr hcode
    · refine List.forall_mem_singleton.mpr (.intro trivial ?_)
      exact List.forall_mem_singleton.mpr (.leaf trivial rfl)
  have hs : Session.parameterNamed.ImportFree := by
    intro name params body hbody
    cases List.mem_singleton.mp (Table.mem_of_find hbody)
    refine .intro trivial (List.forall_mem_cons.mpr ⟨.leaf trivial rfl, ?_⟩)
    exact List.forall_mem_singleton.mpr (.leaf trivial rfl)
  obtain ⟨s', heval⟩ : ∃ s', eval 8 Node.defineThenCall Session.parameterNamed =
      some (.value (.list [.null]), s') := ⟨_, rfl⟩
  obtain ⟨hkept, hother⟩ := importFree_confined hnode hs 8
  obtain ⟨hprograms, hfree⟩ := hkept _ s' heval
  refine ⟨hnode, hs, s', heval, hprograms, hfree, ?_⟩
  rw [hother, heval]
  rfl

end DocScript
