import DocScript.Proofs.References
import DocScript.Proofs.Subtrees

/-!
# What evaluation keeps

An `Invariant` is a property of sessions, together with what it makes of the values, the
faults and the trees of an evaluation. It lists what there is to check, operation by
operation; then evaluation of such a tree keeps the property, and comes to such a value or
such a fault.

What is known of a value may depend on the functions that there are. It must not be lost
when functions are added, as values wait while other trees are evaluated.

**Results.**
* `Invariant.step_keeps`: every construct keeps an invariant, if its parts do.
* `Invariant.eval_keeps`: so does evaluation.
* `Invariant.invoke_keeps`, `Invariant.importUnit_keeps`, `Invariant.runProgram_keeps`: so do
  calls, imports and runs of units.
-/

namespace DocScript

variable {H : Type}

/-- A property of sessions that evaluation keeps, and what comes with it. -/
structure Invariant (H : Type) where
  Holds : Session H → Prop
  /-- The values that come up, as far as functions are concerned. -/
  Fits : Table (Function H) → Value → Prop
  /-- The faults that may come up. -/
  Fault : EvalFault → Prop
  /-- The trees that are evaluated. -/
  Tree : Node → Prop
  tree_child {node child : Node} : Tree node → child ∈ node.children → Tree child
  literal {v : Value} : Tree (.literal v) → ∀ functions, Fits functions v
  null (functions : Table (Function H)) : Fits functions .null
  list {functions : Table (Function H)} {vs : List Value} :
    (∀ v ∈ vs, Fits functions v) → Fits functions (.list vs)
  fold {functions : Table (Function H)} {op : Operator} {first v : Value} {rest : List Value} :
    op.fold first rest = .ok v → (∀ operand ∈ first :: rest, Fits functions operand) →
      Fits functions v
  grown {functions functions' : Table (Function H)} {v : Value} :
    Fits functions v →
      (∀ name, functions.contains name = true → functions'.contains name = true) →
      Fits functions' v
  /-- Only what the loader refuses, and what functions of the host do, is left to check. -/
  fault {fault : EvalFault} :
    (∀ reference source, fault ≠ .importFailed reference source) → Fault fault
  refused {s : Session H} {reference : String} {source : LoadFault} :
    Holds s → s.loader reference = .error source → Fault (.importFailed reference source)
  getGlobal {s : Session H} {name : String} {v : Value} :
    Holds s → s.getGlobal name = .ok v → Fits s.functions v
  getLocal {s : Session H} {name : String} {v : Value} :
    Holds s → s.getLocal name = .ok v → Fits s.functions v
  native {s : Session H} {name : String} {run : Native H} {args : List Value} :
    Holds s → s.functions.get? name = some (.native run) →
      (∀ arg ∈ args, Fits s.functions arg) →
      Holds { s with host := (run s.console args s.host).2 } ∧
      (∀ v, (run s.console args s.host).1 = .ok v → Fits s.functions v) ∧
      ∀ fault, (run s.console args s.host).1 = .error fault → Fault fault
  user {s : Session H} {name : String} {params : Params} {body : Node} :
    Holds s → s.functions.get? name = some (.user params body) → Tree body
  setGlobal {s : Session H} {v : Value} :
    Holds s → Fits s.functions v → ∀ name, Holds (s.setGlobal name v)
  setLocal {s : Session H} {v : Value} :
    Holds s → Fits s.functions v → ∀ name, Holds (s.setLocal name v)
  define {s : Session H} {code : Node} :
    Holds s → Tree code → ∀ name params,
      Holds (s.define name (.user params code)) ∧
      Fits (s.define name (.user params code)).functions (.function name)
  enterScope {s : Session H} : Holds s → Holds s.enterScope
  closeScope {s : Session H} : Holds s → Holds s.closeScope
  called {s : Session H} {bindings : List (String × Value)} :
    Holds s → (∀ binding ∈ bindings, Fits s.functions binding.2) → Holds (s.called bindings)
  exitCall {s : Session H} : Holds s → Holds s.exitCall
  loaded {s : Session H} {text : String} {program : Program} :
    Holds s → Program.read text = .ok program →
      Holds ((s.addProgram program).setGlobals program.globals) ∧
      ∀ statement ∈ program.statements, Tree statement
  registered {s : Session H} {name : String} {program : Program} :
    Holds s → s.programs.get? name = some program →
      Holds (s.setGlobals program.globals) ∧
      ∀ statement ∈ program.statements, Tree statement

namespace Invariant

variable (I : Invariant H)

/-- What an outcome may be in a session. -/
def Admits (s : Session H) : Outcome → Prop
  | .value v => I.Fits s.functions v
  | .returned v => I.Fits s.functions v
  | .failed fault => I.Fault fault

/-- Whatever a run comes to, the invariant holds and admits it. -/
inductive Keeps : Run H → Prop
  | unfinished : Keeps none
  | finished
      {outcome : Outcome} {s : Session H}
      (hs : I.Holds s) (houtcome : I.Admits s outcome) :
      Keeps (some (outcome, s))

variable {I} {s : Session H} {run : Run H}

/-- A run that keeps an invariant and finishes leaves it in place, and comes to what it admits. -/
theorem Keeps.of_eq_some {outcome : Outcome} (hrun : I.Keeps run)
    (h : run = some (outcome, s)) : I.Holds s ∧ I.Admits s outcome := by
  subst h
  cases hrun with
  | finished hs houtcome =>
      exact ⟨hs, houtcome⟩

theorem Keeps.null (hs : I.Holds s) : I.Keeps (some (.value .null, s)) :=
  .finished hs (I.null s.functions)

theorem Keeps.ofExcept {result : Except EvalFault Value} (hs : I.Holds s)
    (hvalue : ∀ v, result = .ok v → I.Fits s.functions v)
    (hfault : ∀ fault, result = .error fault → I.Fault fault) :
    I.Keeps (some (.ofExcept result, s)) := by
  cases result with
  | ok v =>
      exact .finished hs (hvalue v rfl)
  | error fault =>
      exact .finished hs (hfault fault rfl)

/-- What follows need only be checked for values that the invariant admits. -/
theorem Keeps.andThen {next : Value → Session H → Run H} (hrun : I.Keeps run)
    (hnext : ∀ v s, run = some (.value v, s) → I.Holds s → I.Fits s.functions v →
      I.Keeps (next v s)) :
    I.Keeps (run.andThen next) := by
  cases hrun with
  | unfinished =>
      exact .unfinished
  | @finished outcome s hs houtcome =>
      cases outcome with
      | value v =>
          exact hnext v s rfl hs houtcome
      | returned v =>
          exact .finished hs houtcome
      | failed fault =>
          exact .finished hs houtcome

/-- A value that is returned is admitted as a value. -/
theorem Admits.settle {outcome : Outcome} (h : I.Admits s outcome) :
    I.Admits s outcome.settle := by
  cases outcome <;> exact h

theorem Keeps.settle (hrun : I.Keeps run) : I.Keeps run.settle := by
  cases hrun with
  | unfinished =>
      exact .unfinished
  | finished hs houtcome =>
      exact .finished hs houtcome.settle

section Constructs

variable {ev : Eval.Evaluator H}

/-- To close a frame keeps an invariant; that there is none to close is a fault it admits. -/
theorem closeFrame_keeps {outcome : Outcome} (hs : I.Holds s) (houtcome : I.Admits s outcome) :
    I.Keeps (Eval.closeFrame outcome s) := by
  cases hroot : s.scopes.atRoot with
  | true =>
      rw [Eval.closeFrame_of_atRoot hroot]
      exact .finished hs (I.fault (by simp))
  | false =>
      rw [Eval.closeFrame_of_not_atRoot hroot]
      refine .finished (I.closeScope hs) ?_
      cases outcome <;> exact houtcome

/-- A body keeps an invariant in a frame of its own. -/
theorem inFrame_keeps {body : Session H → Run H}
    (hbody : ∀ s, I.Holds s → I.Keeps (body s)) (hs : I.Holds s) :
    I.Keeps (Eval.inFrame body s) := by
  have hrun := hbody s.enterScope (I.enterScope hs)
  unfold Eval.inFrame
  generalize body s.enterScope = run at hrun ⊢
  cases hrun with
  | unfinished =>
      exact .unfinished
  | finished hs' houtcome =>
      exact closeFrame_keeps hs' houtcome

/-- A loop keeps an invariant, round by round. -/
theorem repeatWhile_keeps {test body : Session H → Run H}
    (htest : ∀ s, I.Holds s → I.Keeps (test s)) (hbody : ∀ s, I.Holds s → I.Keeps (body s))
    (rounds : Nat) (hs : I.Holds s) : I.Keeps (Eval.repeatWhile test body rounds s) := by
  induction rounds generalizing s with
  | zero =>
      exact .unfinished
  | succ rounds ih =>
      refine (htest s hs).andThen fun v s _ hs _ => ?_
      split
      · exact (hbody s hs).andThen fun _ s _ hs _ => ih hs
      · exact .null hs

theorem imports_keeps {load : String → Session H → Run H}
    (hload : ∀ reference s, I.Holds s → I.Keeps (load reference s)) {last : Value}
    (references : List String) (hs : I.Holds s) (hlast : I.Fits s.functions last) :
    I.Keeps (Eval.imports load last references s) := by
  induction references generalizing last s with
  | nil =>
      exact .finished hs hlast
  | cons reference rest ih =>
      exact (hload reference s hs).andThen fun v s _ hs hv => ih hs hv

/-- An operation makes its value of values that the invariant admits, or fails with a mismatch. -/
theorem combine_keeps (op : Operator) {operands : List Value} (hs : I.Holds s)
    (hoperands : ∀ operand ∈ operands, I.Fits s.functions operand) :
    I.Keeps (Eval.combine op operands s) := by
  cases operands with
  | nil =>
      exact .finished hs (I.fault (by simp))
  | cons first rest =>
      simp only [Eval.combine]
      cases hfold : op.fold first rest with
      | ok v =>
          exact .finished hs (I.fold hfold hoperands)
      | error mismatch =>
          exact .finished hs (I.fault (by simp))

/-- What a parameter is bound to is an argument, or the list of all of them. -/
theorem fits_of_bindArguments {functions : Table (Function H)} {function : String}
    {args : List Value} {params : Params} {bindings : List (String × Value)}
    (hargs : ∀ arg ∈ args, I.Fits functions arg)
    (hbind : Eval.bindArguments function args params = .ok bindings) :
    ∀ binding ∈ bindings, I.Fits functions binding.2 := by
  intro binding hmem
  cases params with
  | fixed names =>
      rw [Eval.bindArguments] at hbind
      split at hbind
      · cases hbind
        exact hargs _ (List.of_mem_zip hmem).2
      · cases hbind
  | variadic name =>
      cases hbind
      cases List.mem_singleton.mp hmem
      exact I.list hargs

theorem fault_of_bindArguments {function : String} {args : List Value} {params : Params}
    {fault : EvalFault} (hbind : Eval.bindArguments function args params = .error fault) :
    I.Fault fault := by
  cases params with
  | fixed names =>
      rw [Eval.bindArguments] at hbind
      split at hbind
      · cases hbind
      · cases hbind
        exact I.fault (by simp)
  | variadic name =>
      cases hbind

theorem fault_of_getGlobal {name : String} {fault : EvalFault}
    (h : s.getGlobal name = .error fault) : I.Fault fault := by
  unfold Session.getGlobal at h
  split at h
  · cases h
  · cases h
    exact I.fault (by simp)

theorem fault_of_getLocal {name : String} {fault : EvalFault}
    (h : s.getLocal name = .error fault) : I.Fault fault := by
  unfold Session.getLocal at h
  split at h
  · cases h
  · cases h
    exact I.fault (by simp)

variable (hev : ∀ node, I.Tree node → ∀ s, I.Holds s → I.Keeps (ev node s))

include hev

/-- The statements of a block keep an invariant, one after the other. -/
theorem block_keeps {statements : List Node} {last : Value}
    (hstatements : ∀ statement ∈ statements, I.Tree statement) (hs : I.Holds s)
    (hlast : I.Fits s.functions last) : I.Keeps (Eval.block ev last statements s) := by
  induction statements generalizing last s with
  | nil =>
      exact .finished hs hlast
  | cons statement rest ih =>
      obtain ⟨hstatement, hrest⟩ := List.forall_mem_cons.mp hstatements
      exact (hev statement hstatement s hs).andThen fun v s _ hs hv => ih hrest hs hv

/-- Values wait while other trees are evaluated; no function is removed meanwhile. -/
theorem all_keeps (hgrow : ∀ node s, (ev node s).Extends s)
    {next : List Value → Session H → Run H}
    (hnext : ∀ vs s, (∀ v ∈ vs, I.Fits s.functions v) → I.Holds s → I.Keeps (next vs s))
    {nodes : List Node} (hnodes : ∀ node ∈ nodes, I.Tree node)
    {done : List Value} (hdone : ∀ v ∈ done, I.Fits s.functions v) (hs : I.Holds s) :
    I.Keeps (Eval.all ev next done nodes s) := by
  induction nodes generalizing done s with
  | nil =>
      refine hnext done.reverse s (fun v hv => ?_) hs
      exact hdone v (List.mem_reverse.mp hv)
  | cons node rest ih =>
      obtain ⟨hnode, hrest⟩ := List.forall_mem_cons.mp hnodes
      refine (hev node hnode s hs).andThen fun v s' hrun hs' hv => ih hrest ?_ hs'
      refine List.forall_mem_cons.mpr ⟨hv, fun value hvalue => ?_⟩
      exact I.grown (hdone value hvalue) (hgrow node s _ s' hrun).functions

/-- A body keeps an invariant if its parameters are bound to values that are admitted. -/
theorem callBody_keeps {body : Node} {bindings : List (String × Value)}
    (hbody : I.Tree body) (hbindings : ∀ binding ∈ bindings, I.Fits s.functions binding.2)
    (hs : I.Holds s) : I.Keeps (Eval.callBody ev body bindings s) := by
  have hrun := hev body hbody _ (I.called hs hbindings)
  unfold Eval.callBody
  generalize ev body (s.called bindings) = run at hrun ⊢
  cases hrun with
  | unfinished =>
      exact .unfinished
  | @finished outcome s' hs' houtcome =>
      refine closeFrame_keeps (I.exitCall hs') ?_
      cases outcome <;> exact houtcome

/-- A call keeps an invariant if a body does; of functions of the host it is assumed. -/
theorem invoke_keeps (name : String) {args : List Value}
    (hargs : ∀ arg ∈ args, I.Fits s.functions arg) (hs : I.Holds s) :
    I.Keeps (Eval.invoke ev name args s) := by
  unfold Eval.invoke
  cases hfunction : s.functions.get? name with
  | none =>
      exact .finished hs (I.fault (by simp))
  | some function =>
      cases function with
      | native run =>
          obtain ⟨hhost, hvalue, hfault⟩ := I.native hs hfunction hargs
          exact .ofExcept hhost hvalue hfault
      | user params body =>
          simp only
          cases hbind : Eval.bindArguments name args params with
          | error fault =>
              exact .finished hs (fault_of_bindArguments hbind)
          | ok bindings =>
              by_cases hlimit : s.callDepth < s.maxCallDepth
              · rw [Session.enterCall_of_lt hlimit]
                exact callBody_keeps hev (I.user hs hfunction)
                  (fits_of_bindArguments hargs hbind) hs
              · rw [Session.enterCall_of_le (Nat.not_lt.mp hlimit)]
                exact .finished hs (I.fault (by simp))

/-- A unit whose variables may be set keeps an invariant if what it imports does. -/
theorem runUnit_keeps {load : String → Session H → Run H} {program : Program}
    (hload : ∀ reference s, I.Holds s → I.Keeps (load reference s))
    (hset : I.Holds (s.setGlobals program.globals))
    (hstatements : ∀ statement ∈ program.statements, I.Tree statement) :
    I.Keeps (Eval.runUnit ev load program s) := by
  refine (imports_keeps hload _ hset (I.null _)).andThen fun _ s _ hs _ => ?_
  exact (block_keeps hev hstatements hs (I.null _)).settle

/-- An import keeps an invariant, by induction on the levels of units that import others. -/
theorem importUnit_keeps (levels : Nat) (reference : String) (hs : I.Holds s) :
    I.Keeps (Eval.importUnit ev levels reference s) := by
  induction levels generalizing reference s with
  | zero =>
      exact .unfinished
  | succ levels ih =>
      simp only [Eval.importUnit]
      cases hload : Eval.loadUnit s.loader reference with
      | error fault =>
          rcases Eval.loadUnit_eq_error_iff.mp hload with ⟨source, hrefused, rfl⟩ |
            ⟨_, _, _, _, rfl⟩
          · exact .finished hs (I.refused hs hrefused)
          · exact .finished hs (I.fault (by simp))
      | ok program =>
          obtain ⟨text, _, hread⟩ := Eval.loadUnit_eq_ok_iff.mp hload
          obtain ⟨hset, hstatements⟩ := I.loaded hs hread
          exact runUnit_keeps hev (fun reference s hs => ih reference hs) hset hstatements

theorem runProgram_keeps (levels : Nat) (name : String) (hs : I.Holds s) :
    I.Keeps (Eval.runProgram ev levels name s) := by
  unfold Eval.runProgram
  cases hprogram : s.programs.get? name with
  | none =>
      exact .finished hs (I.fault (by simp))
  | some program =>
      obtain ⟨hset, hstatements⟩ := I.registered hs hprogram
      exact runUnit_keeps hev (fun reference s hs => importUnit_keeps hev levels reference hs) hset
        hstatements

theorem framed_keeps (fuel : Nat) {node : Node} (hnode : I.Tree node) (hs : I.Holds s) :
    I.Keeps (Eval.framed ev fuel node s) := by
  have hpart : ∀ part ∈ node.parts, ∀ s, I.Holds s → I.Keeps (ev part s) := fun part hmem =>
    hev part (I.tree_child hnode (Node.mem_children_of_mem_parts hmem))
  cases node with
  | branch condition thenBranch elseBranch =>
      refine (hpart condition List.mem_cons_self s hs).andThen fun v s _ hs _ => ?_
      split
      · exact hpart thenBranch (List.mem_cons_of_mem _ List.mem_cons_self) s hs
      · cases elseBranch with
        | none =>
            exact .null hs
        | some node =>
            exact hpart node (by simp [Node.parts]) s hs
  | forLoop init condition step code =>
      refine (hpart init (by simp [Node.parts]) s hs).andThen fun _ s _ hs _ => ?_
      refine repeatWhile_keeps (hpart condition (by simp [Node.parts])) (fun s hs => ?_) fuel hs
      refine (hpart code (by simp [Node.parts]) s hs).andThen fun _ s _ hs _ => ?_
      exact hpart step (by simp [Node.parts]) s hs
  | whileLoop condition code =>
      exact repeatWhile_keeps (hpart condition (by simp [Node.parts]))
        (hpart code (by simp [Node.parts])) fuel hs
  | switch value cases =>
      refine (hpart value List.mem_cons_self s hs).andThen fun v s _ hs _ => ?_
      cases hchosen : Eval.chooseCase v cases with
      | none =>
          exact .null hs
      | some node =>
          exact hpart node (List.mem_cons_of_mem value (Eval.mem_of_chooseCase hchosen)) s hs
  | _ =>
      exact .null hs

/-- Every construct keeps an invariant, if its parts do. -/
theorem step_keeps (hgrow : ∀ node s, (ev node s).Extends s) (fuel : Nat) {node : Node}
    (hnode : I.Tree node) (hs : I.Holds s) : I.Keeps (Eval.step ev fuel node s) := by
  have hparts : ∀ part ∈ node.parts, I.Tree part := fun part hmem =>
    I.tree_child hnode (Node.mem_children_of_mem_parts hmem)
  have hframed : node.opensFrame = true → I.Keeps (Eval.step ev fuel node s) := fun hopens => by
    rw [Eval.step_of_opensFrame ev fuel hopens]
    exact inFrame_keeps (fun s hs => framed_keeps hev fuel hnode hs) hs
  cases node with
  | literal v =>
      exact .finished hs (I.literal hnode s.functions)
  | block statements =>
      exact block_keeps hev hparts hs (I.null _)
  | var name =>
      exact .ofExcept hs (fun v => I.getGlobal hs) fun fault => fault_of_getGlobal
  | localVar name value =>
      cases value with
      | none =>
          exact .ofExcept hs (fun v => I.getLocal hs) fun fault => fault_of_getLocal
      | some value =>
          have hvalue := hparts value (List.mem_singleton_self value)
          refine (hev value hvalue s hs).andThen fun v s _ hs hv => ?_
          have hset := I.setLocal hs hv name
          exact .ofExcept hset (fun v => I.getLocal hset) fun fault => fault_of_getLocal
  | set name value =>
      have hvalue := hparts value (List.mem_singleton_self value)
      refine (hev value hvalue s hs).andThen fun v s _ hs hv => ?_
      exact .finished (I.setGlobal hs hv name) hv
  | setLocal name value =>
      have hvalue := hparts value (List.mem_singleton_self value)
      refine (hev value hvalue s hs).andThen fun v s _ hs hv => ?_
      exact .finished (I.setLocal hs hv name) hv
  | branch condition thenBranch elseBranch =>
      exact hframed rfl
  | forLoop init condition step code =>
      exact hframed rfl
  | whileLoop condition code =>
      exact hframed rfl
  | switch value cases =>
      exact hframed rfl
  | define name params code =>
      obtain ⟨hdefined, hreference⟩ :=
        I.define hs (I.tree_child hnode (List.mem_singleton_self code)) name params
      exact .finished hdefined hreference
  | call name args =>
      exact all_keeps hev hgrow (fun vs s hvs hs => invoke_keeps hev name hvs hs)
        hparts (List.forall_mem_nil _) hs
  | ret value =>
      have hvalue := hparts value (List.mem_singleton_self value)
      refine (hev value hvalue s hs).andThen fun v s _ hs hv => ?_
      exact .finished hs hv
  | imports references =>
      exact imports_keeps (fun reference s hs => importUnit_keeps hev fuel reference hs) _ hs
        (I.null _)
  | list items =>
      refine all_keeps hev hgrow (fun vs s hvs hs => ?_) hparts (List.forall_mem_nil _) hs
      exact .finished hs (I.list hvs)
  | operation op operands =>
      exact all_keeps hev hgrow (fun vs s hvs hs => combine_keeps op hs hvs)
        hparts (List.forall_mem_nil _) hs
  | comment =>
      exact .null hs

end Constructs

/-- Evaluation of a tree keeps an invariant, by induction on the fuel. -/
theorem eval_keeps (I : Invariant H) (fuel : Nat) {node : Node} (hnode : I.Tree node)
    {s : Session H} (hs : I.Holds s) : I.Keeps (eval fuel node s) := by
  induction fuel generalizing node s with
  | zero =>
      exact .unfinished
  | succ fuel ih =>
      exact step_keeps (fun node hnode s hs => ih hnode hs) (eval_extends fuel) fuel hnode hs

end Invariant

end DocScript
