import DocScript.Proofs.Finishing
import DocScript.Proofs.Subtrees
import DocScript.Units

/-!
# Programs without loops finish

A program without loops can still go on for long: functions call one another and are
defined anew while they run, units import units, and a function may import a unit that
calls it. But calls are nested up to a limit only. Where no unit leads back to itself by
its own imports, evaluation finishes.

Three inductions are nested here: on the calls that may still be opened; for a given
number of them on the units, along their imports; and for a given unit on its trees. The
code of a function does not count for the unit that it is defined in, since it runs in a
call, where there are fewer calls to be opened and any unit may be imported.

**Results.**
* `Session.LoopFree.eval_terminates`: the innermost induction, on trees.
* `Session.LoopFree.importUnit_terminates`: the one on units.
* `loopFree_finishes`: evaluation finishes.
-/

namespace DocScript

open Filter

section Trees

/-- A tree that is no loop itself. -/
def Node.NoLoop : Node → Prop
  | .forLoop _ _ _ _ => False
  | .whileLoop _ _ => False
  | _ => True

/-- There is no loop in a tree, nor in the code of functions that it defines. -/
def Node.LoopFree (node : Node) : Prop :=
  Everywhere Node.children Node.NoLoop node

/-- The units that a tree refers to, outside the code of functions that it defines. -/
inductive Node.Imports : Node → String → Prop
  | here {references : List String} {reference : String}
      (hmem : reference ∈ references) :
      Imports (.imports references) reference
  | part {node part : Node} {reference : String}
      (hpart : part ∈ node.parts)
      (himports : Imports part reference) :
      Imports node reference

/-- The unit at one reference imports the one at another, in its header or in a statement. -/
inductive Loader.Imports (loader : Loader) : String → String → Prop
  | header {reference imported : String} {program : Program}
      (hload : Eval.loadUnit loader reference = .ok program)
      (hmem : imported ∈ program.imports) :
      Imports loader reference imported
  | statement {reference imported : String} {program : Program} {statement : Node}
      (hload : Eval.loadUnit loader reference = .ok program)
      (hstatement : statement ∈ program.statements)
      (himports : statement.Imports imported) :
      Imports loader reference imported

/-- There is no loop in any unit that can be loaded. -/
def Loader.LoopFree (loader : Loader) : Prop :=
  ∀ reference program, Eval.loadUnit loader reference = .ok program →
    ∀ statement ∈ program.statements, statement.LoopFree

end Trees

variable {H : Type}

/-- Runs that finish, given enough fuel, from every session with a property, and keep it. -/
def Terminates (good : Session H → Prop) (run : Nat → Session H → Run H) : Prop :=
  ∀ s, good s → ∃ outcome s', good s' ∧ ∀ᶠ fuel in atTop, run fuel s = some (outcome, s')

namespace Terminates

variable {good : Session H → Prop} {run : Nat → Session H → Run H}

theorem of_some
    {outcome : Session H → Outcome} {update : Session H → Session H}
    (hupdate : ∀ s, good s → good (update s)) :
    Terminates good fun _ s => some (outcome s, update s) :=
  fun s hs => ⟨outcome s, update s, hupdate s hs, .of_forall fun _ => rfl⟩

/-- What is gone on with may take more fuel; with enough of it both finish. -/
theorem andThen
    {next : Nat → Value → Session H → Run H}
    (h : Terminates good run)
    (hnext : ∀ v, Terminates good fun fuel => next fuel v) :
    Terminates good fun fuel s => (run fuel s).andThen (next fuel) := by
  intro s hs
  obtain ⟨outcome, s₁, hs₁, hrun⟩ := h s hs
  cases outcome with
  | value v =>
      obtain ⟨outcome, s₂, hs₂, hrest⟩ := hnext v s₁ hs₁
      refine ⟨outcome, s₂, hs₂, ?_⟩
      filter_upwards [hrun, hrest] with fuel hrun hrest
      rw [hrun, Run.andThen_value, hrest]
  | returned v =>
      refine ⟨.returned v, s₁, hs₁, ?_⟩
      filter_upwards [hrun] with fuel hrun
      rw [hrun, Run.andThen_returned]
  | failed fault =>
      refine ⟨.failed fault, s₁, hs₁, ?_⟩
      filter_upwards [hrun] with fuel hrun
      rw [hrun, Run.andThen_failed]

theorem settle (h : Terminates good run) : Terminates good fun fuel s => (run fuel s).settle := by
  intro s hs
  obtain ⟨outcome, s', hs', hrun⟩ := h s hs
  refine ⟨outcome.settle, s', hs', ?_⟩
  filter_upwards [hrun] with fuel hrun
  rw [hrun]
  rfl

/-- One unit of fuel more makes no difference. -/
theorem shift (h : Terminates good run) : Terminates good fun fuel => run (fuel + 1) := by
  intro s hs
  obtain ⟨outcome, s', hs', hrun⟩ := h s hs
  exact ⟨outcome, s', hs', (tendsto_add_atTop_nat 1).eventually hrun⟩

/-- One unit of fuel less makes no difference. -/
theorem of_shift (h : Terminates good fun fuel => run (fuel + 1)) : Terminates good run := by
  intro s hs
  obtain ⟨outcome, s', hs', hrun⟩ := h s hs
  refine ⟨outcome, s', hs', ?_⟩
  rw [← map_add_atTop_eq_nat 1, eventually_map]
  exact hrun

/-- A block of statements that finish finishes. -/
theorem block
    {ev : Nat → Eval.Evaluator H} {statements : List Node}
    (h : ∀ statement ∈ statements, Terminates good fun fuel => ev fuel statement)
    (last : Value) :
    Terminates good fun fuel => Eval.block (ev fuel) last statements := by
  induction statements generalizing last with
  | nil =>
      exact .of_some fun s hs => hs
  | cons statement rest ih =>
      rw [List.forall_mem_cons] at h
      exact h.1.andThen fun v => ih h.2 v

/-- Operands that finish are gone on with, and what follows finishes. -/
theorem all
    {ev : Nat → Eval.Evaluator H} {nodes : List Node} {next : Nat → List Value → Session H → Run H}
    (h : ∀ node ∈ nodes, Terminates good fun fuel => ev fuel node)
    (hnext : ∀ vs, Terminates good fun fuel => next fuel vs)
    (done : List Value) :
    Terminates good fun fuel => Eval.all (ev fuel) (next fuel) done nodes := by
  induction nodes generalizing done with
  | nil =>
      exact hnext _
  | cons node rest ih =>
      rw [List.forall_mem_cons] at h
      exact h.1.andThen fun v => ih h.2 (v :: done)

theorem imports
    {references : List String} {load : Nat → String → Session H → Run H}
    (h : ∀ reference ∈ references, Terminates good fun fuel => load fuel reference)
    (last : Value) :
    Terminates good fun fuel => Eval.imports (load fuel) last references := by
  induction references generalizing last with
  | nil =>
      exact .of_some fun s hs => hs
  | cons reference rest ih =>
      rw [List.forall_mem_cons] at h
      exact h.1.andThen fun v => ih h.2 v

end Terminates

/--
A session with a given loader and limit on calls, at a given depth of calls, and with no
loop in the code of its functions.
-/
structure Session.LoopFree (loader : Loader) (limit calls : Nat) (s : Session H) : Prop where
  loader_eq : s.loader = loader
  limit_eq : s.maxCallDepth = limit
  calls_eq : s.callDepth = calls
  bodies : ∀ name params body, s.functions.get? name = some (.user params body) → body.LoopFree

namespace Session.LoopFree

variable {loader : Loader} {limit calls : Nat}

section Sessions

variable {s : Session H}

theorem of_eq {s' : Session H} (h : s.LoopFree loader limit calls)
    (hloader : s'.loader = s.loader) (hlimit : s'.maxCallDepth = s.maxCallDepth)
    (hcalls : s'.callDepth = s.callDepth) (hfunctions : s'.functions = s.functions) :
    s'.LoopFree loader limit calls := by
  refine ⟨hloader.trans h.loader_eq, hlimit.trans h.limit_eq, hcalls.trans h.calls_eq, ?_⟩
  rw [hfunctions]
  exact h.bodies

theorem define (h : s.LoopFree loader limit calls) (name : String) (params : Params) {code : Node}
    (hcode : code.LoopFree) :
    (s.define name (.user params code)).LoopFree loader limit calls := by
  refine ⟨h.loader_eq, h.limit_eq, h.calls_eq, ?_⟩
  intro other params' body hbody
  by_cases hname : other = name
  · subst hname
    rw [Session.define, Table.get?_insert_self] at hbody
    cases hbody
    exact hcode
  · rw [Session.define, Table.get?_insert_of_ne _ _ hname] at hbody
    exact h.bodies other params' body hbody

/-- The body of a called function runs one call deeper. -/
theorem called (h : s.LoopFree loader limit calls) (bindings : List (String × Value)) :
    (s.called bindings).LoopFree loader limit (calls + 1) := by
  rw [Session.called_eq]
  exact ⟨h.loader_eq, h.limit_eq, congrArg (· + 1) h.calls_eq, h.bodies⟩

theorem exitCall (h : s.LoopFree loader limit (calls + 1)) :
    s.exitCall.LoopFree loader limit calls := by
  refine ⟨h.loader_eq, h.limit_eq, ?_, h.bodies⟩
  rw [Session.exitCall, h.calls_eq, Nat.add_sub_cancel]

theorem closeFrame (h : s.LoopFree loader limit calls) (outcome : Outcome) :
    ∃ outcome' s', Eval.closeFrame outcome s = some (outcome', s') ∧
      s'.LoopFree loader limit calls := by
  cases hroot : s.scopes.atRoot with
  | true =>
      exact ⟨_, s, Eval.closeFrame_of_atRoot hroot outcome, h⟩
  | false =>
      exact ⟨_, _, Eval.closeFrame_of_not_atRoot hroot outcome, h.of_eq rfl rfl rfl rfl⟩

end Sessions

theorem inFrame_terminates
    {body : Nat → Session H → Run H}
    (hbody : Terminates (Session.LoopFree loader limit calls) body) :
    Terminates (Session.LoopFree loader limit calls) fun fuel => Eval.inFrame (body fuel) := by
  intro s hs
  obtain ⟨outcome, s₁, hs₁, hrun⟩ := hbody s.enterScope (hs.of_eq rfl rfl rfl rfl)
  obtain ⟨outcome', s₂, hclose, hs₂⟩ := hs₁.closeFrame outcome
  refine ⟨outcome', s₂, hs₂, ?_⟩
  filter_upwards [hrun] with fuel hrun
  rw [Eval.inFrame, hrun]
  exact hclose

/-- A body that finishes one call further down finishes as a call. -/
theorem callBody_terminates
    {body : Node}
    (hbody : Terminates (Session.LoopFree loader limit (calls + 1))
      fun fuel (s : Session H) => eval fuel body s)
    (bindings : List (String × Value)) :
    Terminates (Session.LoopFree loader limit calls)
      fun fuel (s : Session H) => Eval.callBody (eval fuel) body bindings s := by
  intro s hs
  obtain ⟨outcome, s₁, hs₁, hrun⟩ := hbody _ (hs.called bindings)
  obtain ⟨outcome', s₂, hclose, hs₂⟩ := hs₁.exitCall.closeFrame outcome.settle
  refine ⟨outcome', s₂, hs₂, ?_⟩
  filter_upwards [hrun] with fuel hrun
  rw [Eval.callBody, hrun]
  exact hclose

theorem combine_terminates {good : Session H → Prop} (op : Operator) (operands : List Value) :
    Terminates good fun _ => Eval.combine op operands := by
  intro s hs
  cases operands with
  | nil =>
      exact ⟨_, s, hs, .of_forall fun _ => rfl⟩
  | cons first rest =>
      simp only [Eval.combine]
      cases op.fold first rest with
      | ok v =>
          exact ⟨_, s, hs, .of_forall fun _ => rfl⟩
      | error mismatch =>
          exact ⟨_, s, hs, .of_forall fun _ => rfl⟩

theorem of_step
    {good : Session H → Prop} {node : Node}
    (h : Terminates good fun fuel => Eval.step (eval fuel) fuel node) :
    Terminates good fun fuel => eval fuel node :=
  Terminates.of_shift h

section Level

/-
The calls that are running are `calls` many, and the code of every function finishes in
the next call. The hypothesis is void where the limit has been reached.
-/
variable (hcode : calls < limit → ∀ body : Node, body.LoopFree →
  Terminates (Session.LoopFree loader limit (calls + 1))
    fun fuel (s : Session H) => eval fuel body s)

include hcode

/-- Any call finishes: at the limit it is refused, and below it the body has fewer calls to make. -/
theorem invoke_terminates (name : String) (args : List Value) :
    Terminates (Session.LoopFree loader limit calls)
      fun fuel (s : Session H) => Eval.invoke (eval fuel) name args s := by
  intro s hs
  rcases Eval.invoke_cases name args s with
    ⟨fault, _, hinvoke⟩ | ⟨run, _, hinvoke⟩ |
    ⟨params, body, bindings, hfunction, hlimit, hinvoke⟩
  · exact ⟨_, s, hs, .of_forall fun fuel => hinvoke (eval fuel)⟩
  · refine ⟨_, _, ?_, .of_forall fun fuel => hinvoke (eval fuel)⟩
    exact hs.of_eq rfl rfl rfl rfl
  · rw [hs.calls_eq, hs.limit_eq] at hlimit
    have hbody := hcode hlimit body (hs.bodies name params body hfunction)
    simp only [hinvoke]
    exact callBody_terminates hbody bindings s hs

/-- A tree without loops finishes, if the units do that it imports itself. -/
theorem eval_terminates {node : Node} (hnode : node.LoopFree)
    (himports : ∀ reference, node.Imports reference →
      Terminates (Session.LoopFree loader limit calls)
        fun fuel (s : Session H) => Eval.importUnit (eval fuel) fuel reference s) :
    Terminates (Session.LoopFree loader limit calls)
      fun fuel (s : Session H) => eval fuel node s := by
  induction hnode with
  | @intro node here below ih =>
      have hpart : ∀ part ∈ node.parts, Terminates (Session.LoopFree loader limit calls)
          fun fuel (s : Session H) => eval fuel part s := by
        intro part hmem
        refine ih part (Node.mem_children_of_mem_parts hmem) ?_
        intro reference hreference
        exact himports reference (.part hmem hreference)
      apply of_step
      cases node with
      | literal v =>
          exact .of_some fun s hs => hs
      | block statements =>
          exact .block hpart .null
      | var name =>
          exact .of_some fun s hs => hs
      | localVar name value =>
          cases value with
          | none =>
              exact .of_some fun s hs => hs
          | some value =>
              refine (hpart value (List.mem_singleton_self value)).andThen fun v => ?_
              exact .of_some fun s hs => hs.of_eq rfl rfl rfl rfl
      | set name value =>
          refine (hpart value (List.mem_singleton_self value)).andThen fun v => ?_
          exact .of_some fun s hs => hs.of_eq rfl rfl rfl rfl
      | setLocal name value =>
          refine (hpart value (List.mem_singleton_self value)).andThen fun v => ?_
          exact .of_some fun s hs => hs.of_eq rfl rfl rfl rfl
      | branch condition thenBranch elseBranch =>
          intro s hs
          simp only [Eval.step]
          refine inFrame_terminates ?_ s hs
          refine (hpart condition List.mem_cons_self).andThen fun v => ?_
          by_cases htruthy : v.truthy = true
          · simp only [htruthy, if_true]
            exact hpart thenBranch (List.mem_cons_of_mem _ List.mem_cons_self)
          · simp only [htruthy]
            cases elseBranch with
            | none =>
                exact .of_some fun s hs => hs
            | some node =>
                exact hpart node (by simp [Node.parts])
      | forLoop init condition step code =>
          cases here
      | whileLoop condition code =>
          cases here
      | switch value cases =>
          intro s hs
          simp only [Eval.step]
          refine inFrame_terminates ?_ s hs
          refine (hpart value List.mem_cons_self).andThen fun v => ?_
          cases hcase : Eval.chooseCase v cases with
          | none =>
              exact .of_some fun s hs => hs
          | some node =>
              exact hpart node (List.mem_cons_of_mem value (Eval.mem_of_chooseCase hcase))
      | define name params code =>
          have hcode := below code (List.mem_singleton_self code)
          exact .of_some fun s hs => hs.define name params hcode
      | call name args =>
          exact .all hpart (invoke_terminates hcode name) []
      | ret value =>
          refine (hpart value (List.mem_singleton_self value)).andThen fun v => ?_
          exact .of_some fun s hs => hs
      | imports references =>
          exact .imports (fun reference hmem => himports reference (.here hmem)) .null
      | list items =>
          exact .all hpart (fun vs => .of_some fun s hs => hs) []
      | operation op operands =>
          exact .all hpart (combine_terminates op) []
      | comment =>
          exact .of_some fun s hs => hs

/-- A unit finishes, if the units do that it imports. -/
theorem importUnit_terminates_of_imported {reference : String} (hunits : loader.LoopFree)
    (himported : ∀ imported, loader.Imports reference imported →
      Terminates (Session.LoopFree loader limit calls)
        fun fuel (s : Session H) => Eval.importUnit (eval fuel) fuel imported s) :
    Terminates (Session.LoopFree loader limit calls)
      fun fuel (s : Session H) => Eval.importUnit (eval fuel) fuel reference s := by
  apply Terminates.of_shift
  intro s hs
  simp only [Eval.importUnit, hs.loader_eq]
  cases hload : Eval.loadUnit loader reference with
  | error fault =>
      exact ⟨_, s, hs, .of_forall fun _ => rfl⟩
  | ok program =>
      -- The header is imported with one level less than the statements have fuel.
      have hheader : ∀ imported ∈ program.imports,
          Terminates (Session.LoopFree loader limit calls)
            fun fuel (s : Session H) => Eval.importUnit (eval (fuel + 1)) fuel imported s := by
        intro imported hmem s hs
        obtain ⟨outcome, s', hs', hrun⟩ := himported imported (.header hload hmem) s hs
        refine ⟨outcome, s', hs', ?_⟩
        filter_upwards [hrun] with fuel hrun
        exact Eval.importUnit_mono (Nat.le_succ fuel) hrun
      have hstatements : ∀ statement ∈ program.statements,
          Terminates (Session.LoopFree loader limit calls)
            fun fuel (s : Session H) => eval (fuel + 1) statement s := by
        intro statement hmem
        refine (eval_terminates hcode (hunits reference program hload statement hmem) ?_).shift
        intro imported himports
        exact himported imported (.statement hload hmem himports)
      have hunit : Terminates (Session.LoopFree loader limit calls)
          fun fuel (s : Session H) =>
            (Eval.imports (Eval.importUnit (eval (fuel + 1)) fuel) .null program.imports s).andThen
              fun _ s => (Eval.block (eval (fuel + 1)) .null program.statements s).settle :=
        (Terminates.imports hheader .null).andThen fun _ =>
          (Terminates.block hstatements .null).settle
      exact hunit _ (hs.of_eq rfl rfl rfl rfl)

/-- Every unit finishes, where imports are well founded. -/
theorem importUnit_terminates (hunits : loader.LoopFree)
    (hwf : WellFounded fun imported reference => loader.Imports reference imported)
    (reference : String) :
    Terminates (Session.LoopFree loader limit calls)
      fun fuel (s : Session H) => Eval.importUnit (eval fuel) fuel reference s := by
  induction reference using hwf.induction with
  | _ reference ih =>
      exact importUnit_terminates_of_imported hcode hunits ih

end Level

/-- Trees without loops finish at every depth of calls. -/
theorem terminates (hunits : loader.LoopFree)
    (hwf : WellFounded fun imported reference => loader.Imports reference imported)
    {node : Node} (hnode : node.LoopFree) :
    Terminates (Session.LoopFree loader limit calls)
      fun fuel (s : Session H) => eval fuel node s := by
  -- The induction is on the calls that may still be opened.
  induction hremaining : limit - calls using Nat.strong_induction_on generalizing calls node with
  | _ remaining ih =>
      have hcode : calls < limit → ∀ body : Node, body.LoopFree →
          Terminates (Session.LoopFree loader limit (calls + 1))
            fun fuel (s : Session H) => eval fuel body s := by
        intro hlimit body hbody
        exact ih (limit - (calls + 1)) (by omega) hbody rfl
      exact eval_terminates hcode hnode fun reference _ =>
        importUnit_terminates hcode hunits hwf reference

end Session.LoopFree

/--
Without loops evaluation finishes, with a value, a `return` or a fault. There must be no
loop in the tree, in the code of the functions or in the units that can be loaded, and
the units must not lead back to themselves by imports outside the code of functions.
Functions may call one another, be defined anew and import whatever they like.
-/
theorem loopFree_finishes
    {node : Node} {s : Session H}
    (hnode : node.LoopFree)
    (hbodies : ∀ name params body,
      s.functions.get? name = some (.user params body) → body.LoopFree)
    (hunits : s.loader.LoopFree)
    (hwf : WellFounded fun imported reference => s.loader.Imports reference imported) :
    ∃ outcome s', Finishes node s outcome s' := by
  have hs : s.LoopFree s.loader s.maxCallDepth s.callDepth := ⟨rfl, rfl, rfl, hbodies⟩
  obtain ⟨outcome, s', _, hrun⟩ := Session.LoopFree.terminates hunits hwf hnode s hs
  obtain ⟨fuel, heval⟩ := hrun.exists
  exact ⟨outcome, s', fuel, heval⟩

/-- The unit that defines `tick`, whose code imports the unit `tock` and calls `tick`. -/
def Program.tick : Program where
  name := Program.defaultName
  statements := [.define "tick" (.fixed []) (.block [.imports ["tock"], .call "tick" []])]

/-- The unit that imports the unit `tick` and calls the function. -/
def Program.tock : Program where
  name := Program.defaultName
  imports := ["tick"]
  statements := [.call "tick" []]

/-- A session in which a function imports the unit that calls it and defines it anew. -/
def Session.tickTock : Session Unit where
  host := ()
  console := Session.quiet.console
  loader := .ofTable ⟨[
    ("tick", "\x7b\"code\":\x7b\"def\":\x7b\"name\":\"tick\",\"args\":[],\"code\":" ++
      "[\x7b\"import\":\"tock\"\x7d,\x7b\"call\":\"tick\"\x7d]\x7d\x7d\x7d"),
    ("tock", "\x7b\"import\":\"tick\",\"code\":\x7b\"call\":\"tick\"\x7d\x7d")]⟩
  maxCallDepth := 2

theorem Session.tickTock_loads {reference : String} {program : Program}
    (h : Eval.loadUnit Session.tickTock.loader reference = .ok program) :
    reference = "tick" ∧ program = Program.tick ∨ reference = "tock" ∧ program = Program.tock := by
  obtain ⟨text, htext, hread⟩ := Eval.loadUnit_eq_ok_iff.mp h
  have hmem := Table.mem_of_find (Loader.ofTable_eq_ok_iff.mp htext)
  rcases List.mem_cons.mp hmem with hentry | hmem
  · cases hentry
    exact .inl ⟨rfl, (Except.ok.inj hread).symm⟩
  · cases List.mem_singleton.mp hmem
    exact .inr ⟨rfl, (Except.ok.inj hread).symm⟩

theorem loopFree_finishes_tickTock :
    (Eval.loadUnit Session.tickTock.loader "tick" = .ok Program.tick ∧
      Eval.loadUnit Session.tickTock.loader "tock" = .ok Program.tock) ∧
    ∃ outcome s', Finishes (.imports ["tock"]) Session.tickTock outcome s' := by
  refine ⟨⟨rfl, rfl⟩, loopFree_finishes ?_ ?_ ?_ ?_⟩
  · exact .leaf trivial rfl
  · intro name params body hbody
    have hmem := Table.mem_of_find hbody
    cases hmem with
    | tail _ hmem =>
        cases hmem
  · intro reference program hload
    rcases Session.tickTock_loads hload with ⟨_, rfl⟩ | ⟨_, rfl⟩
    · refine List.forall_mem_singleton.mpr (.intro trivial (List.forall_mem_singleton.mpr ?_))
      refine .intro trivial (List.forall_mem_cons.mpr ⟨.leaf trivial rfl, ?_⟩)
      exact List.forall_mem_singleton.mpr (.leaf trivial rfl)
    · exact List.forall_mem_singleton.mpr (.leaf trivial rfl)
  · -- Only `tock` imports a unit, which is `tick`.
    refine Subrelation.wf ?_ (measure fun reference => if reference = "tock" then 1 else 0).wf
    intro imported reference himports
    cases himports with
    | header hload hmem =>
        rcases Session.tickTock_loads hload with ⟨_, rfl⟩ | ⟨rfl, rfl⟩
        · cases hmem
        · cases List.mem_singleton.mp hmem
          exact Nat.zero_lt_one
    | statement hload hstatement himports =>
        rcases Session.tickTock_loads hload with ⟨_, rfl⟩ | ⟨_, rfl⟩
        · cases List.mem_singleton.mp hstatement
          cases himports with
          | part hpart =>
              cases hpart
        · cases List.mem_singleton.mp hstatement
          cases himports with
          | part hpart =>
              cases hpart

end DocScript
