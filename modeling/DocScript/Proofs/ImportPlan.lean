import DocScript.Proofs.Finishing
import DocScript.Proofs.Lasting
import DocScript.Units
import Mathlib.Order.Filter.Finite
import Mathlib.Order.WellFoundedSet

/-!
# Imports as a flat plan

To import a unit is to import the units of its header first, each of which may have a
header of its own. Where no unit leads back to itself that way, all that happens can be
written down beforehand as a list of actions: units are loaded, registered, set their
variables and run their statements, one after the other, up to the first fault.

The plan holds the statements of a unit and not its name. So it does not matter that
units that are imported in between may be registered under the same name.

**Results.**
* `Loader.wellFounded_of_acyclic`: in a table of units, headers that lead in no circle
  are well founded.
* `Loader.plan_plans`: each unit has a plan, by recursion along the headers.
* `Loader.Plans.eventually_importUnit`: an import does what the plan says, given enough
  levels for the headers.
* `importUnit_flattens`: imports from a table of units are flat.
-/

namespace DocScript

open Filter

section Plans

/-- One thing that an import does. -/
inductive Action where
  | load (reference : String)
  | register (program : Program)
  | setGlobals (bindings : List (String × Value))
  | run (statements : List Node)

/-- What is planned for each unit: to be refused, or to be run after its imports. -/
structure Loader.Plans (loader : Loader) (plan : String → List Action) : Prop where
  refused {reference : String} {fault : EvalFault} :
    Eval.loadUnit loader reference = .error fault → plan reference = [.load reference]
  loaded {reference : String} {program : Program} :
    Eval.loadUnit loader reference = .ok program →
    plan reference =
      .load reference :: .register program :: .setGlobals program.globals ::
        (program.imports.flatMap plan ++ [.run program.statements])

/-- The unit at one reference has the other one in its header. -/
def Loader.HeaderImports (loader : Loader) (reference imported : String) : Prop :=
  ∃ program, Eval.loadUnit loader reference = .ok program ∧ imported ∈ program.imports

theorem Loader.finite_headerImports (loader : Loader) (reference : String) :
    {imported | loader.HeaderImports reference imported}.Finite := by
  cases hload : Eval.loadUnit loader reference with
  | error fault =>
      refine Set.finite_empty.subset ?_
      rintro imported ⟨program, hload', _⟩
      cases hload.symm.trans hload'
  | ok program =>
      refine (List.finite_toSet program.imports).subset ?_
      rintro imported ⟨program', hload', hmem⟩
      cases hload.symm.trans hload'
      exact hmem

theorem Loader.mem_names_of_loadUnit {units : Table String} {reference : String}
    {program : Program} (h : Eval.loadUnit (.ofTable units) reference = .ok program) :
    reference ∈ units.names := by
  obtain ⟨text, htext, _⟩ := Eval.loadUnit_eq_ok_iff.mp h
  exact List.mem_map_of_mem (Table.mem_of_find (Loader.ofTable_eq_ok_iff.mp htext))

/-- There are only so many units, so without circles all ways end. -/
theorem Loader.wellFounded_of_acyclic {units : Table String}
    (hacyclic : ∀ reference,
      ¬ Relation.TransGen (Loader.ofTable units).HeaderImports reference reference) :
    WellFounded fun imported reference =>
      (Loader.ofTable units).HeaderImports reference imported := by
  let leads (imported reference : String) : Prop :=
    Relation.TransGen (Loader.ofTable units).HeaderImports reference imported
  have hstrict : IsStrictOrder String leads :=
    { irrefl := hacyclic
      trans := fun _ _ _ hfirst hsecond => hsecond.trans hfirst }
  have hnames : {reference | reference ∈ units.names}.WellFoundedOn leads :=
    (List.finite_toSet units.names).wellFoundedOn
  -- What is not in the table imports nothing.
  have houtside : ∀ reference ∉ units.names,
      Acc (fun imported reference => (Loader.ofTable units).HeaderImports reference imported)
        reference := by
    intro reference hmem
    refine .intro reference ?_
    rintro imported ⟨program, hload, _⟩
    exact absurd (Loader.mem_names_of_loadUnit hload) hmem
  refine ⟨fun reference => ?_⟩
  by_cases hmem : reference ∈ units.names
  · refine hnames.induction hmem ?_
    intro reference _ ih
    refine .intro reference fun imported himports => ?_
    by_cases hmem : imported ∈ units.names
    · exact ih imported hmem (.single himports)
    · exact houtside imported hmem
  · exact houtside reference hmem

/-- The plan of a unit, along the headers. -/
def Loader.plan (loader : Loader)
    (hwf : WellFounded fun imported reference => loader.HeaderImports reference imported)
    (reference : String) : List Action :=
  match hload : Eval.loadUnit loader reference with
  | .error _ => [.load reference]
  | .ok program =>
      .load reference :: .register program :: .setGlobals program.globals ::
        (program.imports.attach.flatMap (fun imported => loader.plan hwf imported.1) ++
          [.run program.statements])
termination_by hwf.wrap reference
decreasing_by exact ⟨program, hload, imported.2⟩

theorem Loader.plan_plans {loader : Loader}
    (hwf : WellFounded fun imported reference => loader.HeaderImports reference imported) :
    loader.Plans (loader.plan hwf) where
  refused hload := by
    rw [Loader.plan]
    split
    · rfl
    · rename_i hload'
      cases hload.symm.trans hload'
  loaded hload := by
    rw [Loader.plan]
    split
    · rename_i hload'
      cases hload.symm.trans hload'
    · rename_i hload'
      cases hload.symm.trans hload'
      rw [List.flatMap_subtype fun _ _ => rfl, List.unattach_attach]

end Plans

section Execution

variable {H : Type}

/-- Does one thing. A unit ends where a `return` in it arrives. -/
def Action.perform (ev : Eval.Evaluator H) : Action → Session H → Run H
  | .load reference, s =>
      match Eval.loadUnit s.loader reference with
      | .error fault => some (.failed fault, s)
      | .ok _ => some (.value .null, s)
  | .register program, s => some (.value .null, s.addProgram program)
  | .setGlobals bindings, s => some (.value .null, s.setGlobals bindings)
  | .run statements, s => (Eval.block ev .null statements s).settle

/-- Does one thing after the other, up to the first fault; the value is that of the last one. -/
def Action.execute (ev : Eval.Evaluator H) (last : Value) : List Action → Session H → Run H
  | [], s => some (.value last, s)
  | action :: rest, s => (action.perform ev s).andThen fun v s => execute ev v rest s

variable {ev : Eval.Evaluator H} {s : Session H}

namespace Action

theorem execute_append (last : Value) (first second : List Action) :
    execute ev last (first ++ second) s =
      (execute ev last first s).andThen fun v s => execute ev v second s := by
  induction first generalizing last s with
  | nil =>
      rfl
  | cons action rest ih =>
      simp only [List.cons_append, execute, ih, Run.andThen_assoc]

theorem execute_singleton (last : Value) (action : Action) :
    execute ev last [action] s = action.perform ev s :=
  Run.andThen_some_value _

theorem perform_ne_returned (action : Action) (v : Value) (s' : Session H) :
    action.perform ev s ≠ some (.returned v, s') := by
  cases action with
  | load reference =>
      simp only [perform]
      split <;> simp
  | run statements =>
      simp only [perform]
      rcases Eval.block ev .null statements s with _ | ⟨outcome, s₁⟩
      · exact nofun
      · cases outcome <;> simp [Run.settle, Outcome.settle]
  | _ =>
      exact nofun

/-- A `return` never leaves a plan. -/
theorem execute_ne_returned (last : Value) (actions : List Action) (v : Value) (s' : Session H) :
    execute ev last actions s ≠ some (.returned v, s') := by
  induction actions generalizing last s with
  | nil =>
      exact nofun
  | cons action rest ih =>
      rw [execute]
      rcases hperform : action.perform ev s with _ | ⟨outcome, s₁⟩
      · exact nofun
      · cases outcome with
        | value v =>
            exact ih v
        | returned v =>
            exact absurd hperform (perform_ne_returned action v s₁)
        | failed fault =>
            exact nofun

/-- After the `return` of one unit the plan goes on. -/
theorem execute_run_of_returned {statements : List Node} {v : Value} {s' : Session H}
    (hblock : Eval.block ev .null statements s = some (.returned v, s'))
    (last : Value) (rest : List Action) :
    execute ev last (.run statements :: rest) s = execute ev v rest s' := by
  rw [execute, perform, hblock]
  rfl

end Action

end Execution

section Imports

variable {H : Type}

/-- What units there are does not change. -/
theorem Eval.loader_of_importUnit
    {fuel depth : Nat} {reference : String} {s s' : Session H} {outcome : Outcome}
    (h : Eval.importUnit (eval fuel) depth reference s = some (outcome, s')) :
    s'.loader = s.loader :=
  (Session.lasting_loader s.loader).importUnit rfl h

/-- A unit is registered and then run by its name, which its imports may take over. -/
theorem Eval.importUnit_eq_runProgram {ev : Eval.Evaluator H} {s : Session H} {depth : Nat}
    {reference : String} {program : Program}
    (hload : Eval.loadUnit s.loader reference = .ok program) :
    Eval.importUnit ev (depth + 1) reference s =
      Eval.runProgram ev depth program.name (s.addProgram program) := by
  simp only [Eval.importUnit, hload, Eval.runProgram, Session.addProgram, Table.get?_insert_self]

namespace Loader.Plans

variable {loader : Loader} {plan : String → List Action}

/-- Units are imported in order, each as planned. -/
theorem imports_eq_execute {fuel depth : Nat} {references : List String}
    (himport : ∀ reference ∈ references, ∀ (last : Value) (s : Session H), s.loader = loader →
      Eval.importUnit (eval fuel) depth reference s =
        Action.execute (eval fuel) last (plan reference) s)
    (last : Value) {s : Session H} (hs : s.loader = loader) :
    Eval.imports (Eval.importUnit (eval fuel) depth) last references s =
      Action.execute (eval fuel) last (references.flatMap plan) s := by
  induction references generalizing last s with
  | nil =>
      rfl
  | cons reference rest ih =>
      obtain ⟨hfirst, hrest⟩ := List.forall_mem_cons.mp himport
      rw [List.flatMap_cons, Action.execute_append, Eval.imports, ← hfirst last s hs]
      apply Run.andThen_congr
      intro v s' hrun
      exact ih hrest v ((Eval.loader_of_importUnit hrun).trans hs)

/-- One level of headers. -/
theorem importUnit_eq_execute (hplans : loader.Plans plan) {fuel depth : Nat} {reference : String}
    (himport : ∀ imported, loader.HeaderImports reference imported →
      ∀ (last : Value) (s : Session H), s.loader = loader →
        Eval.importUnit (eval fuel) depth imported s =
          Action.execute (eval fuel) last (plan imported) s)
    (last : Value) {s : Session H} (hs : s.loader = loader) :
    Eval.importUnit (eval fuel) (depth + 1) reference s =
      Action.execute (eval fuel) last (plan reference) s := by
  cases hload : Eval.loadUnit loader reference with
  | error fault =>
      rw [hplans.refused hload]
      simp only [Eval.importUnit, Action.execute, Action.perform, hs, hload, Run.andThen_failed]
  | ok program =>
      have hheader : ∀ imported ∈ program.imports, ∀ (last : Value) (s : Session H),
          s.loader = loader → Eval.importUnit (eval fuel) depth imported s =
            Action.execute (eval fuel) last (plan imported) s :=
        fun imported hmem => himport imported ⟨program, hload, hmem⟩
      have hset : ((s.addProgram program).setGlobals program.globals).loader = loader := hs
      rw [hplans.loaded hload]
      simp only [Eval.importUnit, Eval.runUnit, Action.execute, Action.perform, hs, hload,
        Run.andThen_value]
      rw [Action.execute_append, imports_eq_execute hheader .null hset]
      simp only [Action.execute_singleton, Action.perform]

/-- An import does what the plan says, given enough levels for the headers. -/
theorem eventually_importUnit (hplans : loader.Plans plan)
    (hwf : WellFounded fun imported reference => loader.HeaderImports reference imported)
    (reference : String) :
    ∀ᶠ depth in atTop, ∀ (fuel : Nat) (last : Value) (s : Session H), s.loader = loader →
      Eval.importUnit (eval fuel) depth reference s =
        Action.execute (eval fuel) last (plan reference) s := by
  induction reference using hwf.induction with
  | _ reference ih =>
      have himported : ∀ᶠ depth in atTop, ∀ imported, loader.HeaderImports reference imported →
          ∀ (fuel : Nat) (last : Value) (s : Session H), s.loader = loader →
            Eval.importUnit (eval fuel) depth imported s =
              Action.execute (eval fuel) last (plan imported) s :=
        (eventually_all_finite (loader.finite_headerImports reference)).mpr ih
      rw [← map_add_atTop_eq_nat 1, eventually_map]
      filter_upwards [himported] with depth himported fuel last s hs
      exact hplans.importUnit_eq_execute
        (fun imported himports => himported imported himports fuel) last hs

end Loader.Plans

end Imports

/--
Imports are flat. Where the headers of a table of units lead in no circle, each unit has a
plan, and an import comes to what the plan comes to, given enough levels for the headers.
So a unit that cannot be loaded changes nothing, a `return` ends no more than its own unit,
a unit is run as often as it is imported, and it runs its own statements in whatever
session its imports leave behind, be its name taken over by then or not.
-/
theorem importUnit_flattens {H : Type} (units : Table String)
    (hacyclic : ∀ reference,
      ¬ Relation.TransGen (Loader.ofTable units).HeaderImports reference reference) :
    ∃ plan : String → List Action,
      (Loader.ofTable units).Plans plan ∧
      ∀ reference, ∃ levels, ∀ depth ≥ levels, ∀ (fuel : Nat) (s : Session H),
        s.loader = Loader.ofTable units →
        Eval.importUnit (eval fuel) depth reference s =
          Action.execute (eval fuel) .null (plan reference) s ∧
        (∀ fault, Eval.loadUnit s.loader reference = .error fault →
          Eval.importUnit (eval fuel) depth reference s = some (.failed fault, s) ∧
          ((∃ source, fault = .importFailed reference source) ∨
            ∃ source, fault = .invalidUnit reference source)) ∧
        (∀ v s', Eval.importUnit (eval fuel) depth reference s ≠ some (.returned v, s')) ∧
        (∀ statements rest last v s',
          Eval.block (eval fuel) .null statements s = some (.returned v, s') →
          Action.execute (eval fuel) last (.run statements :: rest) s =
            Action.execute (eval fuel) v rest s') ∧
        (∀ times last,
          Eval.imports (Eval.importUnit (eval fuel) depth) last
              (List.replicate times reference) s =
            Action.execute (eval fuel) last (List.replicate times (plan reference)).flatten s) ∧
        (∀ program, Eval.loadUnit s.loader reference = .ok program →
          Eval.importUnit (eval fuel) (depth + 1) reference s =
            Eval.runProgram (eval fuel) depth program.name (s.addProgram program) ∧
          Eval.importUnit (eval fuel) depth reference s =
            (Action.execute (eval fuel) .null (program.imports.flatMap plan)
              ((s.addProgram program).setGlobals program.globals)).andThen fun _ s' =>
                (Eval.block (eval fuel) .null program.statements s').settle) := by
  have hwf := Loader.wellFounded_of_acyclic hacyclic
  have hplans := Loader.plan_plans hwf
  refine ⟨Loader.plan _ hwf, hplans, fun reference => ?_⟩
  obtain ⟨levels, himport⟩ :=
    eventually_atTop.mp (hplans.eventually_importUnit (H := H) hwf reference)
  refine ⟨levels, fun depth hdepth fuel s hs => ?_⟩
  have hflat := himport depth hdepth fuel
  refine ⟨hflat .null s hs, ?_, ?_, ?_, ?_, ?_⟩
  · intro fault hload
    constructor
    · rw [hflat .null s hs, hplans.refused (hs ▸ hload), Action.execute_singleton, Action.perform,
        hload]
    · rcases Eval.loadUnit_eq_error_iff.mp hload with
        ⟨source, _, hfault⟩ | ⟨_, source, _, _, hfault⟩
      · exact .inl ⟨source, hfault⟩
      · exact .inr ⟨source, hfault⟩
  · intro v s'
    rw [hflat .null s hs]
    exact Action.execute_ne_returned _ _ v s'
  · intro statements rest last v s' hblock
    exact Action.execute_run_of_returned hblock last rest
  · intro times last
    rw [← List.flatMap_replicate]
    refine Loader.Plans.imports_eq_execute ?_ last hs
    intro imported hmem
    rw [List.eq_of_mem_replicate hmem]
    exact hflat
  · intro program hload
    refine ⟨Eval.importUnit_eq_runProgram hload, ?_⟩
    rw [hflat .null s hs, hplans.loaded (hs ▸ hload)]
    simp only [Action.execute, Action.perform, hload, Run.andThen_value, Action.execute_append,
      Run.andThen_some_value]

/-- The unit that adds to a log and returns it, before a statement that would fail. -/
def Program.adding : Program where
  name := Program.defaultName
  statements :=
    [.ret (.set "log" (.operation .add [.var "log", .literal (.string "b")])), .var "missing"]

/-- The unit that imports the other one twice, which takes over its name, and adds to the log. -/
def Program.importingTwice : Program where
  name := Program.defaultName
  globals := [("log", .string "")]
  imports := ["base", "base"]
  statements := [.set "log" (.operation .add [.var "log", .literal (.string "t")])]

/-- The texts of the two units. -/
def Table.namelessUnits : Table String := ⟨[
  ("base", "\x7b\"code\":[\x7b\"return\":\x7b\"set\":\x7b\"name\":\"log\",\"value\":" ++
    "\x7b\"+\":[\x7b\"var\":\"log\"\x7d,\"b\"]\x7d\x7d\x7d\x7d,\x7b\"var\":\"missing\"\x7d]\x7d"),
  ("top", "\x7b\"variables\":\x7b\"log\":\"\"\x7d,\"import\":[\"base\",\"base\"],\"code\":" ++
    "\x7b\"set\":\x7b\"name\":\"log\",\"value\":\x7b\"+\":[\x7b\"var\":\"log\"\x7d,\"t\"]\x7d\x7d\x7d\x7d")]⟩

theorem Table.namelessUnits_headerImports {reference imported : String}
    (h : (Loader.ofTable Table.namelessUnits).HeaderImports reference imported) :
    reference = "top" ∧ imported = "base" := by
  obtain ⟨program, hload, himported⟩ := h
  obtain ⟨text, htext, hread⟩ := Eval.loadUnit_eq_ok_iff.mp hload
  have hmem := Table.mem_of_find (Loader.ofTable_eq_ok_iff.mp htext)
  rcases List.mem_cons.mp hmem with hentry | hmem
  · cases hentry
    cases (show Program.read _ = .ok Program.adding from rfl).symm.trans hread
    cases himported
  · cases List.mem_singleton.mp hmem
    cases (show Program.read _ = .ok Program.importingTwice from rfl).symm.trans hread
    rw [Program.importingTwice, List.mem_cons, List.mem_singleton, or_self] at himported
    exact ⟨rfl, himported⟩

/-- A session that has the two units. -/
def Session.nameless : Session Unit :=
  { Session.quiet with loader := .ofTable Table.namelessUnits }

/-- The session after the import, in which one unit has taken over the name of the other. -/
def Session.namelessAfter : Session Unit :=
  { Session.nameless with
    globals := ⟨[("log", .string "bbt")]⟩
    programs := ⟨[(Program.defaultName, Program.adding)]⟩ }

theorem importUnit_flattens_namelessUnits :
    (∀ reference, ¬ Relation.TransGen (Loader.ofTable Table.namelessUnits).HeaderImports
      reference reference) ∧
    ∃ levels, ∀ depth ≥ levels,
      Eval.importUnit (eval 4) depth "top" Session.nameless =
        some (.value (.string "bbt"), Session.namelessAfter) := by
  have hacyclic : ∀ reference,
      ¬ Relation.TransGen (Loader.ofTable Table.namelessUnits).HeaderImports
        reference reference := by
    intro reference hcircle
    obtain ⟨_, hfirst, _⟩ := Relation.TransGen.head'_iff.mp hcircle
    obtain ⟨_, _, hlast⟩ := Relation.TransGen.tail'_iff.mp hcircle
    have htop := (Table.namelessUnits_headerImports hfirst).1
    have hbase := (Table.namelessUnits_headerImports hlast).2
    exact absurd (htop.symm.trans hbase) (by decide)
  refine ⟨hacyclic, ?_⟩
  obtain ⟨plan, hplans, himport⟩ := importUnit_flattens (H := Unit) Table.namelessUnits hacyclic
  have hbase := hplans.loaded
    (show Eval.loadUnit (.ofTable Table.namelessUnits) "base" = .ok Program.adding from rfl)
  have htop := hplans.loaded
    (show Eval.loadUnit (.ofTable Table.namelessUnits) "top" = .ok Program.importingTwice from rfl)
  obtain ⟨levels, hlevels⟩ := himport "top"
  refine ⟨levels, fun depth hdepth => ?_⟩
  obtain ⟨hflat, _⟩ := hlevels depth hdepth 4 Session.nameless rfl
  rw [hflat, htop, Program.importingTwice, List.flatMap_cons, List.flatMap_singleton, hbase]
  rfl

end DocScript
