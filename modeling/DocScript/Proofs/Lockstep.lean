import DocScript.Proofs.Renaming
import DocScript.Proofs.Simulation

/-!
# Evaluations in lockstep

Two evaluations run in lockstep when they do the same at every step: with the same fuel
both finish or neither does, and where they finish, they come to the same. Other than in a
simulation, the second one is of a tree in which local variables have other names, and the
sessions may have hosts that differ as long as no function of the host can tell.

A `Lockstep` lists what there is to check of a relation between sessions, operation by
operation. Not all trees need to be allowed: the relation is then kept by evaluations of
allowed trees, and functions are defined by such trees only.

**Results.**
* `Lockstep.invoke_inLockstep`, `Lockstep.importUnit_inLockstep`, `Lockstep.block_inLockstep`:
  calls, imports and blocks run in lockstep if evaluations of trees do.
* `Lockstep.eval_inLockstep`: evaluations of allowed trees do.
-/

namespace DocScript

/-- The same outcome, but for the name in the fault of a local variable that is not bound. -/
inductive Outcome.RenamedTo (rename : String → String) : Outcome → Outcome → Prop
  | same (outcome : Outcome) : RenamedTo rename outcome outcome
  | unbound (name : String) :
      RenamedTo rename (.failed (.unboundLocal name)) (.failed (.unboundLocal (rename name)))

/-- Both runs finish in related sessions, or neither of them does. -/
inductive Run.InLockstep {H : Type} (rename : String → String)
    (rel : Session H → Session H → Prop) : Run H → Run H → Prop
  | unfinished : InLockstep rename rel none none
  | finished
      {outcome outcome' : Outcome} {s t : Session H}
      (houtcome : outcome.RenamedTo rename outcome') (h : rel s t) :
      InLockstep rename rel (some (outcome, s)) (some (outcome', t))

namespace Run.InLockstep

variable {H : Type} {rename : String → String} {rel : Session H → Session H → Prop}
variable {run run' : Run H} {s t : Session H}

theorem same (outcome : Outcome) (h : rel s t) :
    InLockstep rename rel (some (outcome, s)) (some (outcome, t)) :=
  .finished (.same outcome) h

/-- What follows is reached with the same value, so that it runs on in lockstep. -/
theorem andThen
    {next next' : Value → Session H → Run H}
    (h : InLockstep rename rel run run')
    (hnext : ∀ v s t, rel s t → InLockstep rename rel (next v s) (next' v t)) :
    InLockstep rename rel (run.andThen next) (run'.andThen next') := by
  cases h with
  | unfinished =>
      exact .unfinished
  | @finished outcome outcome' s t houtcome hst =>
      cases houtcome with
      | unbound name =>
          exact .finished (.unbound name) hst
      | same outcome =>
          cases outcome with
          | value v =>
              exact hnext v s t hst
          | returned v =>
              exact .same _ hst
          | failed fault =>
              exact .same _ hst

theorem settle (h : InLockstep rename rel run run') :
    InLockstep rename rel run.settle run'.settle := by
  cases h with
  | unfinished =>
      exact .unfinished
  | finished houtcome hst =>
      cases houtcome with
      | unbound name =>
          exact .finished (.unbound name) hst
      | same outcome =>
          exact .same _ hst

/-- Both runs finish in related sessions, or neither of them finishes. -/
theorem cases_finished (h : InLockstep rename rel run run') :
    (run = none ∧ run' = none) ∨
    ∃ outcome outcome' s t, run = some (outcome, s) ∧ run' = some (outcome', t) ∧ rel s t ∧
      outcome.RenamedTo rename outcome' := by
  cases h with
  | unfinished =>
      exact .inl ⟨rfl, rfl⟩
  | finished houtcome hst =>
      exact .inr ⟨_, _, _, _, rfl, rfl, hst, houtcome⟩

end Run.InLockstep

/-- What makes the evaluation of a tree run in lockstep with that of the renamed tree. -/
structure Lockstep (H : Type) where
  /-- The names of local variables in the second evaluation. -/
  rename : String → String
  /-- The trees that may be evaluated. -/
  Allowed : Node → Prop
  Rel : Session H → Session H → Prop
  allowed_child {node child : Node} : Allowed node → child ∈ node.children → Allowed child
  getGlobal {s t : Session H} : Rel s t → ∀ name, t.getGlobal name = s.getGlobal name
  lookup {s t : Session H} :
    Rel s t → ∀ name, t.scopes.lookup? (rename name) = s.scopes.lookup? name
  atRoot {s t : Session H} : Rel s t → t.scopes.atRoot = s.scopes.atRoot
  calls {s t : Session H} :
    Rel s t → t.callDepth = s.callDepth ∧ t.maxCallDepth = s.maxCallDepth
  unknown {s t : Session H} {name : String} :
    Rel s t → s.functions.get? name = none → t.functions.get? name = none
  native {s t : Session H} {name : String} {run : Native H} :
    Rel s t → s.functions.get? name = some (.native run) →
      t.functions.get? name = some (.native run) ∧
      ∀ args, (run t.console args t.host).1 = (run s.console args s.host).1 ∧
        Rel { s with host := (run s.console args s.host).2 }
          { t with host := (run t.console args t.host).2 }
  user {s t : Session H} {name : String} {params : Params} {body : Node} :
    Rel s t → s.functions.get? name = some (.user params body) →
      Allowed body ∧
      t.functions.get? name =
        some (.user (params.renameLocals rename) (body.renameLocals rename))
  setGlobal {s t : Session H} :
    Rel s t → ∀ name value, Rel (s.setGlobal name value) (t.setGlobal name value)
  setLocal {s t : Session H} :
    Rel s t → ∀ name value, Rel (s.setLocal name value) (t.setLocal (rename name) value)
  define {s t : Session H} {body : Node} :
    Rel s t → Allowed body → ∀ name params,
      Rel (s.define name (.user params body))
        (t.define name (.user (params.renameLocals rename) (body.renameLocals rename)))
  enterScope {s t : Session H} : Rel s t → Rel s.enterScope t.enterScope
  closeScope {s t : Session H} : Rel s t → Rel s.closeScope t.closeScope
  called {s t : Session H} :
    Rel s t → ∀ bindings,
      Rel (s.called bindings) (t.called (bindings.map (Prod.map rename id)))
  exitCall {s t : Session H} : Rel s t → Rel s.exitCall t.exitCall
  /-- Where units may be imported, they are the same and local names in them stay. -/
  load {references : List String} {s t : Session H} :
    Allowed (.imports references) → Rel s t →
      t.loader = s.loader ∧
      ∀ reference program, Eval.loadUnit s.loader reference = .ok program →
        Rel (s.addProgram program) (t.addProgram program) ∧
        ∀ statement ∈ program.statements,
          Allowed statement ∧ statement.renameLocals rename = statement

namespace Lockstep

variable {H : Type} (L : Lockstep H)

/-- Evaluators that run in lockstep on all trees that are allowed. -/
def Keeps (ev ev' : Eval.Evaluator H) : Prop :=
  ∀ (node : Node) (s t : Session H), L.Allowed node → L.Rel s t →
    Run.InLockstep L.rename L.Rel (ev node s) (ev' (node.renameLocals L.rename) t)

section Constructs

variable {L} {ev ev' : Eval.Evaluator H} (hev : L.Keeps ev ev') {s t : Session H}

theorem setGlobals_rel (bindings : List (String × Value)) (h : L.Rel s t) :
    L.Rel (s.setGlobals bindings) (t.setGlobals bindings) := by
  induction bindings generalizing s t with
  | nil =>
      exact h
  | cons binding rest ih =>
      exact ih (L.setGlobal h binding.1 binding.2)

/-- A local variable that is not bound is the one fault that tells the two apart, by its name. -/
theorem getLocal_inLockstep (name : String) (h : L.Rel s t) :
    Run.InLockstep L.rename L.Rel (Eval.answer (s.getLocal name) s)
      (Eval.answer (t.getLocal (L.rename name)) t) := by
  unfold Eval.answer Session.getLocal
  rw [L.lookup h name]
  cases s.scopes.lookup? name with
  | none =>
      exact .finished (.unbound name) h
  | some value =>
      exact .same _ h

/-- Both are at the root, or neither is, so that a frame closes in both or in none. -/
theorem closeFrame_inLockstep
    {outcome outcome' : Outcome} (houtcome : outcome.RenamedTo L.rename outcome')
    (h : L.Rel s t) :
    Run.InLockstep L.rename L.Rel (Eval.closeFrame outcome s) (Eval.closeFrame outcome' t) := by
  have hroot := L.atRoot h
  cases hs : s.scopes.atRoot with
  | true =>
      rw [Eval.closeFrame_of_atRoot hs, Eval.closeFrame_of_atRoot (hroot.trans hs)]
      exact .same _ h
  | false =>
      rw [Eval.closeFrame_of_not_atRoot hs, Eval.closeFrame_of_not_atRoot (hroot.trans hs)]
      exact .finished houtcome (L.closeScope h)

/-- A body that runs in lockstep does so in a frame of its own. -/
theorem inFrame_inLockstep
    {body body' : Session H → Run H}
    (hbody : ∀ s t, L.Rel s t → Run.InLockstep L.rename L.Rel (body s) (body' t))
    (h : L.Rel s t) :
    Run.InLockstep L.rename L.Rel (Eval.inFrame body s) (Eval.inFrame body' t) := by
  have hrun := hbody _ _ (L.enterScope h)
  unfold Eval.inFrame
  generalize body s.enterScope = run at hrun ⊢
  generalize body' t.enterScope = run' at hrun ⊢
  cases hrun with
  | unfinished =>
      exact .unfinished
  | finished houtcome hst =>
      exact closeFrame_inLockstep houtcome hst

/-- Loops make the same number of rounds. -/
theorem repeatWhile_inLockstep
    {test test' body body' : Session H → Run H}
    (htest : ∀ s t, L.Rel s t → Run.InLockstep L.rename L.Rel (test s) (test' t))
    (hbody : ∀ s t, L.Rel s t → Run.InLockstep L.rename L.Rel (body s) (body' t))
    (rounds : Nat) (h : L.Rel s t) :
    Run.InLockstep L.rename L.Rel (Eval.repeatWhile test body rounds s)
      (Eval.repeatWhile test' body' rounds t) := by
  induction rounds generalizing s t with
  | zero =>
      exact .unfinished
  | succ rounds ih =>
      refine (htest s t h).andThen fun v s t hst => ?_
      split
      · exact (hbody s t hst).andThen fun _ s t hst => ih hst
      · exact .same _ hst

/-- Units are imported one after the other, in the same order. -/
theorem imports_inLockstep
    {load load' : String → Session H → Run H}
    (hload : ∀ reference s t, L.Rel s t →
      Run.InLockstep L.rename L.Rel (load reference s) (load' reference t))
    (last : Value) (references : List String) (h : L.Rel s t) :
    Run.InLockstep L.rename L.Rel (Eval.imports load last references s)
      (Eval.imports load' last references t) := by
  induction references generalizing last s t with
  | nil =>
      exact .same _ h
  | cons reference rest ih =>
      exact (hload reference s t h).andThen fun v s t hst => ih v hst

include hev

/-- The statements of a block run in lockstep, one after the other. -/
theorem block_inLockstep
    {statements : List Node} (hallowed : ∀ statement ∈ statements, L.Allowed statement)
    (last : Value) (h : L.Rel s t) :
    Run.InLockstep L.rename L.Rel (Eval.block ev last statements s)
      (Eval.block ev' last (statements.map (Node.renameLocals L.rename)) t) := by
  induction statements generalizing last s t with
  | nil =>
      exact .same _ h
  | cons statement rest ih =>
      obtain ⟨hfirst, hrest⟩ := List.forall_mem_cons.mp hallowed
      exact (hev statement s t hfirst h).andThen fun v s t hst => ih hrest v hst

/-- The operands have the same values, and what is done with them runs in lockstep. -/
theorem all_inLockstep
    {nodes : List Node} (hallowed : ∀ node ∈ nodes, L.Allowed node)
    {next next' : List Value → Session H → Run H}
    (hnext : ∀ vs s t, L.Rel s t → Run.InLockstep L.rename L.Rel (next vs s) (next' vs t))
    (done : List Value) (h : L.Rel s t) :
    Run.InLockstep L.rename L.Rel (Eval.all ev next done nodes s)
      (Eval.all ev' next' done (nodes.map (Node.renameLocals L.rename)) t) := by
  induction nodes generalizing done s t with
  | nil =>
      exact hnext _ s t h
  | cons node rest ih =>
      obtain ⟨hfirst, hrest⟩ := List.forall_mem_cons.mp hallowed
      exact (hev node s t hfirst h).andThen fun v s t hst => ih hrest (v :: done) hst

/-- A body is entered with the same values under the names of its parameters. -/
theorem callBody_inLockstep
    {body : Node} (hbody : L.Allowed body) (bindings : List (String × Value)) (h : L.Rel s t) :
    Run.InLockstep L.rename L.Rel (Eval.callBody ev body bindings s)
      (Eval.callBody ev' (body.renameLocals L.rename) (bindings.map (Prod.map L.rename id)) t) := by
  have hrun := hev body _ _ hbody (L.called h bindings)
  unfold Eval.callBody
  generalize ev body (s.called bindings) = run at hrun ⊢
  generalize ev' (body.renameLocals L.rename) (t.called _) = run' at hrun ⊢
  cases hrun with
  | unfinished =>
      exact .unfinished
  | finished houtcome hst =>
      refine closeFrame_inLockstep ?_ (L.exitCall hst)
      cases houtcome with
      | unbound name =>
          exact .unbound name
      | same outcome =>
          exact .same _

/-- The same function is called by the same name, with names of its own for local variables. -/
theorem invoke_inLockstep (name : String) (args : List Value) (h : L.Rel s t) :
    Run.InLockstep L.rename L.Rel (Eval.invoke ev name args s) (Eval.invoke ev' name args t) := by
  unfold Eval.invoke
  cases hfunction : s.functions.get? name with
  | none =>
      rw [L.unknown h hfunction]
      exact .same _ h
  | some function =>
      cases function with
      | native run =>
          obtain ⟨hsame, hrun⟩ := L.native h hfunction
          obtain ⟨hresult, hhost⟩ := hrun args
          rw [hsame]
          simp only [hresult]
          exact .same _ hhost
      | user params body =>
          obtain ⟨hbody, hrenamed⟩ := L.user h hfunction
          obtain ⟨hdepth, hmax⟩ := L.calls h
          rw [hrenamed]
          simp only [Eval.bindArguments_renameLocals]
          cases Eval.bindArguments name args params with
          | error fault =>
              exact .same _ h
          | ok bindings =>
              by_cases hlimit : s.callDepth < s.maxCallDepth
              · simp only [Except.map, Session.enterCall_of_lt hlimit,
                  Session.enterCall_of_lt (s := t) (by omega)]
                exact callBody_inLockstep hev hbody bindings h
              · have hlimit := Nat.not_lt.mp hlimit
                simp only [Except.map, Session.enterCall_of_le hlimit,
                  Session.enterCall_of_le (s := t) (by omega), hmax]
                exact .same _ h

/-- A unit is read from the same loader, and no name in it changes. -/
theorem importUnit_inLockstep
    {references : List String} (hallowed : L.Allowed (.imports references))
    (levels : Nat) (reference : String) (h : L.Rel s t) :
    Run.InLockstep L.rename L.Rel (Eval.importUnit ev levels reference s)
      (Eval.importUnit ev' levels reference t) := by
  induction levels generalizing reference s t with
  | zero =>
      exact .unfinished
  | succ levels ih =>
      obtain ⟨hloader, hunits⟩ := L.load hallowed h
      unfold Eval.importUnit
      rw [hloader]
      cases hload : Eval.loadUnit s.loader reference with
      | error fault =>
          exact .same _ h
      | ok program =>
          obtain ⟨hadded, hstatements⟩ := hunits reference program hload
          have hstay : program.statements.map (Node.renameLocals L.rename) = program.statements :=
            (List.map_congr_left fun statement hmem => (hstatements statement hmem).2).trans
              (List.map_id _)
          refine (imports_inLockstep (fun reference s t hst => ih reference hst) _ _
            (setGlobals_rel _ hadded)).andThen fun _ s t hst => ?_
          have hblock := block_inLockstep hev
            (fun statement hmem => (hstatements statement hmem).1) .null hst
          rw [hstay] at hblock
          exact hblock.settle

/-- Constructs with a frame of their own run in lockstep inside of it. -/
theorem framed_inLockstep
    (fuel : Nat) {node : Node} (hparts : ∀ part ∈ node.parts, L.Allowed part) (h : L.Rel s t) :
    Run.InLockstep L.rename L.Rel (Eval.framed ev fuel node s)
      (Eval.framed ev' fuel (node.renameLocals L.rename) t) := by
  have hpart : ∀ part ∈ node.parts, ∀ s t, L.Rel s t →
      Run.InLockstep L.rename L.Rel (ev part s) (ev' (part.renameLocals L.rename) t) :=
    fun part hmem s t hst => hev part s t (hparts part hmem) hst
  cases node with
  | branch condition thenBranch elseBranch =>
      cases elseBranch with
      | none =>
          refine (hpart condition (by simp [Node.parts]) s t h).andThen fun v s t hst => ?_
          split
          · exact hpart thenBranch (by simp [Node.parts]) s t hst
          · exact .same _ hst
      | some elseBranch =>
          refine (hpart condition (by simp [Node.parts]) s t h).andThen fun v s t hst => ?_
          split
          · exact hpart thenBranch (by simp [Node.parts]) s t hst
          · exact hpart elseBranch (by simp [Node.parts]) s t hst
  | forLoop init condition step code =>
      refine (hpart init (by simp [Node.parts]) s t h).andThen fun _ s t hst => ?_
      refine repeatWhile_inLockstep (hpart condition (by simp [Node.parts])) (fun s t hst => ?_)
        fuel hst
      refine (hpart code (by simp [Node.parts]) s t hst).andThen fun _ s t hst => ?_
      exact hpart step (by simp [Node.parts]) s t hst
  | whileLoop condition code =>
      exact repeatWhile_inLockstep (hpart condition (by simp [Node.parts]))
        (hpart code (by simp [Node.parts])) fuel h
  | switch value cases =>
      refine (hpart value (by simp [Node.parts]) s t h).andThen fun v s t hst => ?_
      rw [Eval.chooseCase_renameLocals]
      cases hchosen : Eval.chooseCase v cases with
      | none =>
          exact .same _ hst
      | some node =>
          exact hpart node (List.mem_cons_of_mem value (Eval.mem_of_chooseCase hchosen)) s t hst
  | localVar name value =>
      cases value <;> exact .same _ h
  | _ =>
      exact .same _ h

omit hev in
/-- Other names for local variables open no frames. -/
theorem opensFrame_renameLocals (rename : String → String) (node : Node) :
    (node.renameLocals rename).opensFrame = node.opensFrame := by
  cases node with
  | localVar name value =>
      cases value <;> rfl
  | branch condition thenBranch elseBranch =>
      cases elseBranch <;> rfl
  | _ =>
      rfl

/-- Every construct runs in lockstep if its parts do. -/
theorem step_inLockstep
    (fuel : Nat) {node : Node} (hallowed : L.Allowed node) (h : L.Rel s t) :
    Run.InLockstep L.rename L.Rel (Eval.step ev fuel node s)
      (Eval.step ev' fuel (node.renameLocals L.rename) t) := by
  have hparts : ∀ part ∈ node.parts, L.Allowed part := fun part hmem =>
    L.allowed_child hallowed (Node.mem_children_of_mem_parts hmem)
  by_cases hopens : node.opensFrame = true
  · rw [Eval.step_of_opensFrame ev fuel hopens, Eval.step_of_opensFrame ev' fuel
      ((opensFrame_renameLocals L.rename node).trans hopens)]
    exact inFrame_inLockstep (fun s t hst => framed_inLockstep hev fuel hparts hst) h
  cases node with
  | literal v =>
      exact .same _ h
  | block statements =>
      simp only [Node.renameLocals, Node.renameItems_eq_map]
      exact block_inLockstep hev hparts .null h
  | var name =>
      simp only [Node.renameLocals, Eval.step, Eval.answer, L.getGlobal h name]
      exact .same _ h
  | localVar name value =>
      cases value with
      | none =>
          exact getLocal_inLockstep name h
      | some value =>
          refine (hev value s t (hparts value (by simp [Node.parts])) h).andThen fun v s t hst => ?_
          exact getLocal_inLockstep name (L.setLocal hst name v)
  | set name value =>
      refine (hev value s t (hparts value (by simp [Node.parts])) h).andThen fun v s t hst => ?_
      exact .same _ (L.setGlobal hst name v)
  | setLocal name value =>
      refine (hev value s t (hparts value (by simp [Node.parts])) h).andThen fun v s t hst => ?_
      exact .same _ (L.setLocal hst name v)
  | define name params code =>
      have hcode : L.Allowed code := L.allowed_child hallowed (List.mem_singleton_self code)
      exact .same _ (L.define h hcode name params)
  | call name args =>
      simp only [Node.renameLocals, Node.renameItems_eq_map]
      exact all_inLockstep hev hparts (fun vs s t hst => invoke_inLockstep hev name vs hst) [] h
  | ret value =>
      refine (hev value s t (hparts value (by simp [Node.parts])) h).andThen fun v s t hst => ?_
      exact .same _ hst
  | imports references =>
      exact imports_inLockstep
        (fun reference s t hst => importUnit_inLockstep hev hallowed fuel reference hst) _ _ h
  | list items =>
      simp only [Node.renameLocals, Node.renameItems_eq_map]
      refine all_inLockstep hev hparts (fun vs s t hst => ?_) [] h
      exact .same _ hst
  | operation op operands =>
      simp only [Node.renameLocals, Node.renameItems_eq_map]
      refine all_inLockstep hev hparts (fun vs s t hst => ?_) [] h
      cases vs with
      | nil =>
          exact .same _ hst
      | cons first rest =>
          simp only [Eval.combine]
          cases op.fold first rest with
          | ok v =>
              exact .same _ hst
          | error mismatch =>
              exact .same _ hst
  | comment =>
      exact .same _ h
  | _ =>
      exact absurd rfl hopens

end Constructs

/-- Evaluations of allowed trees run in lockstep. -/
theorem eval_inLockstep (fuel : Nat) : L.Keeps (eval fuel) (eval fuel) := by
  induction fuel with
  | zero =>
      exact fun node s t hallowed h => .unfinished
  | succ fuel ih =>
      exact fun node s t hallowed h => step_inLockstep ih fuel hallowed h

end Lockstep
end DocScript
