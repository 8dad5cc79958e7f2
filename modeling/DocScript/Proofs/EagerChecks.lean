import DocScript.Proofs.Frames
import DocScript.Proofs.ReadTrees
import DocScript.Session.Requests
import DocScript.Units

/-!
# Checked when read, not when run

A document is checked as a whole while it is read: literals are scalars, and operations
have operands. All trees that a session holds have been read, so evaluation never comes
upon a malformed one. Nor does it ever close the only frame. Where an evaluation fails
with a fault of the shape of a document, the document is a unit that was to be imported.

The invariant is `Session.Checked`, of a session with a given number of frames. It is
shown for one construct at a time, then for a tree, then for a request to a session, and
so for all sessions that requests lead to.

**Results.**
* `Node.checked_of_read`, `Program.checked_of_read`: what is read is checked.
* `eval_checked`: evaluation of a checked tree keeps a session checked.
* `Session.Requested.checked`: so does a request.
* `requests_keep_checked`: what holds of every session that requests lead to.
-/

namespace DocScript

section Trees

/-- A tree that reading lets pass: literals are scalars, and operations have operands. -/
def Node.Checked (node : Node) : Prop :=
  Everywhere Node.children (Node.Regular fun _ => True) node

/-- A unit of such trees. -/
def Program.Checked (program : Program) : Prop :=
  ∀ statement ∈ program.statements, statement.Checked

/-- Nothing is asked of the numbers of a document here. -/
theorem Json.numberPasses_true (document : Json) :
    Everywhere Json.children (Json.NumberPasses fun _ => True) document := by
  induction document using Json.induction_on_size with
  | step document ih =>
      refine .intro ?_ fun child hchild => ih child (Json.sizeOf_lt_of_mem_children hchild)
      cases document <;> trivial

/-- A tree that is read is checked. -/
theorem Node.checked_of_read {document : Json} {node : Node}
    (hread : Node.ofJson document = .ok node) : node.Checked :=
  Node.regular_of_read (Json.numberPasses_true document) hread

/-- Every statement of a unit is read as a tree, so it is checked. -/
theorem Program.checked_of_statementsOf {code : Option Json} {statements : List Node}
    (hread : Program.statementsOf code = .ok statements) :
    ∀ statement ∈ statements, statement.Checked := by
  intro statement hmem
  rw [Program.statementsOf.eq_def] at hread
  split at hread
  · cases hread
    cases hmem
  · obtain ⟨item, _, hitem⟩ := Node.exists_item_of_ofItems hread hmem
    exact Node.checked_of_read hitem
  · obtain ⟨node, hnode, rfl⟩ := map_eq_ok_iff.mp hread
    cases List.mem_singleton.mp hmem
    exact Node.checked_of_read hnode

/-- A unit that is read is checked. -/
theorem Program.checked_of_read {text : String} {program : Program}
    (hread : Program.read text = .ok program) : program.Checked := by
  unfold Program.read at hread
  split at hread
  · rename_i document _
    cases document with
    | object members =>
        simp only [Program.ofJson, bind_eq_ok_iff] at hread
        obtain ⟨name, _, globals, _, imports, _, statements, hstatements, hprogram⟩ := hread
        cases hprogram
        exact Program.checked_of_statementsOf hstatements
    | _ =>
        cases hread
  · cases hread

end Trees

section Faults

/-- A fault that blames how a program is built: its frames do not match, or it is malformed. -/
def EvalFault.Structural (fault : EvalFault) : Prop :=
  fault = .rootFrame ∨ fault.kind = .shape ∨ fault.kind = .unknownConstruct

/-- The fault of an import: there is a unit, but it cannot be read. -/
def EvalFault.OfUnit (loader : Loader) (fault : EvalFault) : Prop :=
  ∃ reference text source,
    loader reference = .ok text ∧ Program.read text = .error source ∧
    fault = .invalidUnit reference source

/-- A fault that blames how a program is built only where a unit cannot be read. -/
def EvalFault.Expected (loader : Loader) (fault : EvalFault) : Prop :=
  fault.Structural → fault.OfUnit loader

variable {loader : Loader} {fault : EvalFault}

theorem EvalFault.Expected.of_not_structural (h : ¬ fault.Structural) : fault.Expected loader :=
  fun hstructural => absurd hstructural h

/-- A fault of a document is one of its shape or of a key that is not known. -/
theorem EvalFault.structural_malformed (source : Malformed) :
    (EvalFault.malformed source).Structural := by
  cases source with
  | unknown key =>
      exact .inr (.inr rfl)
  | _ =>
      exact .inr (.inl rfl)

/-- That a tree is malformed is never expected. -/
theorem EvalFault.Expected.ne_malformed (h : fault.Expected loader) (source : Malformed) :
    fault ≠ .malformed source := by
  rintro rfl
  obtain ⟨_, _, _, _, _, heq⟩ := h (EvalFault.structural_malformed source)
  cases heq

theorem EvalFault.Expected.ne_rootFrame (h : fault.Expected loader) : fault ≠ .rootFrame := by
  rintro rfl
  obtain ⟨_, _, _, _, _, heq⟩ := h (.inl rfl)
  cases heq

/-- A call is refused for its name, its arguments or the limit, never for how a tree is built. -/
theorem Eval.CallRefused.expected {name : String} {limit : Nat}
    (h : Eval.CallRefused name limit fault) : fault.Expected loader := by
  apply EvalFault.Expected.of_not_structural
  cases h <;> simp [EvalFault.Structural, EvalFault.kind]

/-- Where a unit is refused for its shape, there is a text that cannot be read. -/
theorem Eval.loadUnit_expected {reference : String}
    (h : Eval.loadUnit loader reference = .error fault) : fault.Expected loader := by
  rcases Eval.loadUnit_eq_error_iff.mp h with ⟨source, _, rfl⟩ | ⟨text, source, hload, hread, rfl⟩
  · exact .of_not_structural (by simp [EvalFault.Structural, EvalFault.kind])
  · exact fun _ => ⟨reference, text, source, hload, hread, rfl⟩

theorem Eval.loadUnit_checked {reference : String} {program : Program}
    (h : Eval.loadUnit loader reference = .ok program) : program.Checked := by
  obtain ⟨text, _, hread⟩ := Eval.loadUnit_eq_ok_iff.mp h
  exact Program.checked_of_read hread

end Faults

variable {H : Type}

theorem Session.getGlobal_expected {loader : Loader} {fault : EvalFault} {name : String}
    (s : Session H) (h : s.getGlobal name = .error fault) : fault.Expected loader := by
  unfold Session.getGlobal at h
  split at h
  · cases h
  · cases h
    exact .of_not_structural (by simp [EvalFault.Structural, EvalFault.kind])

theorem Session.getLocal_expected {loader : Loader} {fault : EvalFault} {name : String}
    (s : Session H) (h : s.getLocal name = .error fault) : fault.Expected loader := by
  unfold Session.getLocal at h
  split at h
  · cases h
  · cases h
    exact .of_not_structural (by simp [EvalFault.Structural, EvalFault.kind])

/-- A function of the host that never blames how a program is built. -/
def Native.Tame (run : Native H) : Prop :=
  ∀ console args host fault, (run console args host).1 = .error fault → ¬ fault.Structural

/-- All that `print` blames is the console. -/
theorem Native.print_tame : Native.Tame (Native.print : Native H) := by
  intro console args host fault hfault
  have houtput : ∃ source, fault = .output source := by
    unfold Native.print at hfault
    simp only at hfault
    split at hfault
    · cases hfault
      exact ⟨_, rfl⟩
    · split at hfault
      · cases hfault
        exact ⟨_, rfl⟩
      · cases hfault
  obtain ⟨source, rfl⟩ := houtput
  simp [EvalFault.Structural, EvalFault.kind]

/-- A function with checked code, or a tame one of the host. -/
def Function.Checked : Function H → Prop
  | .native run => Native.Tame run
  | .user _ body => body.Checked

/-- A session with so many frames, at least one, whose functions and units are checked. -/
structure Session.Checked (loader : Loader) (depth : Nat) (s : Session H) : Prop where
  loader_eq : s.loader = loader
  depth_eq : s.scopes.depth = depth
  depth_pos : 0 < depth
  functions : ∀ entry ∈ s.functions.entries, entry.2.Checked
  programs : ∀ entry ∈ s.programs.entries, entry.2.Checked

namespace Session.Checked

variable {loader : Loader} {depth : Nat} {s : Session H}

theorem of_eq {s' : Session H} (h : s.Checked loader depth)
    (hloader : s'.loader = s.loader) (hdepth : s'.scopes.depth = s.scopes.depth)
    (hfunctions : s'.functions = s.functions) (hprograms : s'.programs = s.programs) :
    s'.Checked loader depth := by
  refine ⟨hloader.trans h.loader_eq, hdepth.trans h.depth_eq, h.depth_pos, ?_, ?_⟩
  · rw [hfunctions]
    exact h.functions
  · rw [hprograms]
    exact h.programs

theorem setLocal (h : s.Checked loader depth) (name : String) (value : Value) :
    (s.setLocal name value).Checked loader depth :=
  h.of_eq rfl (s.scopes.depth_assign name value) rfl rfl

/-- A session stays checked where a checked function is defined. -/
theorem define (h : s.Checked loader depth) (name : String) {function : Function H}
    (hfunction : function.Checked) : (s.define name function).Checked loader depth :=
  ⟨h.loader_eq, h.depth_eq, h.depth_pos, Table.forall_insert h.functions hfunction, h.programs⟩

theorem addProgram (h : s.Checked loader depth) {program : Program} (hprogram : program.Checked) :
    (s.addProgram program).Checked loader depth :=
  ⟨h.loader_eq, h.depth_eq, h.depth_pos, h.functions, Table.forall_insert h.programs hprogram⟩

theorem enterScope (h : s.Checked loader depth) : s.enterScope.Checked loader (depth + 1) := by
  refine ⟨h.loader_eq, ?_, Nat.succ_pos depth, h.functions, h.programs⟩
  rw [Session.enterScope, Scopes.push_eq_pushFrame, Scopes.depth_pushFrame, h.depth_eq]

theorem called (h : s.Checked loader depth) (bindings : List (String × Value)) :
    (s.called bindings).Checked loader (depth + 1) := by
  rw [Session.called_eq]
  refine ⟨h.loader_eq, ?_, Nat.succ_pos depth, h.functions, h.programs⟩
  rw [Scopes.pushBound, Scopes.depth_pushFrame, h.depth_eq]

/-- A frame may be closed where another one is left. -/
theorem closeScope (h : s.Checked loader (depth + 1)) (hdepth : 0 < depth) :
    s.closeScope.Checked loader depth := by
  refine ⟨h.loader_eq, ?_, hdepth, h.functions, h.programs⟩
  rw [Session.closeScope, Scopes.depth_pop, h.depth_eq, Nat.add_sub_cancel]

/-- A reset leaves one frame, no unit, and none but functions that were checked before. -/
theorem reset (h : s.Checked loader depth) : s.reset.Checked loader 1 := by
  refine ⟨h.loader_eq, rfl, Nat.one_pos, ?_, List.forall_mem_nil _⟩
  intro entry hentry
  exact h.functions entry (List.mem_filter.mp hentry).1

end Session.Checked

/-- Whatever a run comes to, the session is left checked, and a fault is an expected one. -/
inductive Run.Checked (loader : Loader) (depth : Nat) : Run H → Prop
  | unfinished : Checked loader depth none
  | finished
      {outcome : Outcome} {s : Session H}
      (hs : s.Checked loader depth)
      (hfault : ∀ fault, outcome = .failed fault → fault.Expected loader) :
      Checked loader depth (some (outcome, s))

namespace Run.Checked

variable {loader : Loader} {depth : Nat} {s : Session H} {run : Run H}

theorem value (hs : s.Checked loader depth) (v : Value) :
    Run.Checked loader depth (some (.value v, s)) :=
  .finished hs fun _ heq => nomatch heq

theorem returned (hs : s.Checked loader depth) (v : Value) :
    Run.Checked loader depth (some (.returned v, s)) :=
  .finished hs fun _ heq => nomatch heq

theorem failed {fault : EvalFault} (hs : s.Checked loader depth) (hfault : fault.Expected loader) :
    Run.Checked loader depth (some (.failed fault, s)) :=
  .finished hs fun _ heq => Outcome.failed.inj heq ▸ hfault

theorem ofExcept {result : Except EvalFault Value} (hs : s.Checked loader depth)
    (hresult : ∀ fault, result = .error fault → fault.Expected loader) :
    Run.Checked loader depth (some (.ofExcept result, s)) := by
  cases result with
  | ok v =>
      exact .value hs v
  | error fault =>
      exact .failed hs (hresult fault rfl)

/-- What follows starts from a checked session, with as many frames. -/
theorem andThen {next : Value → Session H → Run H}
    (hrun : run.Checked loader depth)
    (hnext : ∀ v s, s.Checked loader depth → (next v s).Checked loader depth) :
    (run.andThen next).Checked loader depth := by
  cases hrun with
  | unfinished =>
      exact .unfinished
  | @finished outcome s hs hfault =>
      cases outcome with
      | value v =>
          exact hnext v s hs
      | returned v =>
          exact .returned hs v
      | failed fault =>
          exact .failed hs (hfault fault rfl)

theorem settle (hrun : run.Checked loader depth) : run.settle.Checked loader depth := by
  cases hrun with
  | unfinished =>
      exact .unfinished
  | @finished outcome s hs hfault =>
      cases outcome with
      | failed fault =>
          exact .failed hs (hfault fault rfl)
      | _ =>
          exact .value hs _

end Run.Checked

section Constructs

variable {loader : Loader} {depth : Nat} {s : Session H} {ev : Eval.Evaluator H}

/-- The frame that is closed is never the only one. -/
theorem Eval.closeFrame_checked {outcome : Outcome}
    (hs : s.Checked loader (depth + 1)) (hdepth : 0 < depth)
    (hfault : ∀ fault, outcome = .failed fault → fault.Expected loader) :
    (Eval.closeFrame outcome s).Checked loader depth := by
  have hroot : s.scopes.atRoot = false := by
    apply Scopes.atRoot_eq_false
    rw [hs.depth_eq]
    omega
  rw [Eval.closeFrame_of_not_atRoot hroot]
  exact .finished (hs.closeScope hdepth) hfault

/-- A body runs with one frame more, and the frame is closed after it. -/
theorem Eval.inFrame_checked {body : Session H → Run H}
    (hbody : ∀ s, s.Checked loader (depth + 1) → (body s).Checked loader (depth + 1))
    (hs : s.Checked loader depth) :
    (Eval.inFrame body s).Checked loader depth := by
  have hrun := hbody s.enterScope hs.enterScope
  unfold Eval.inFrame
  generalize body s.enterScope = run at hrun ⊢
  cases hrun with
  | unfinished =>
      exact .unfinished
  | finished hs' hfault =>
      exact Eval.closeFrame_checked hs' hs.depth_pos hfault

/-- A loop leaves a session checked, round by round. -/
theorem Eval.repeatWhile_checked {test body : Session H → Run H}
    (htest : ∀ s, s.Checked loader depth → (test s).Checked loader depth)
    (hbody : ∀ s, s.Checked loader depth → (body s).Checked loader depth)
    (rounds : Nat) (hs : s.Checked loader depth) :
    (Eval.repeatWhile test body rounds s).Checked loader depth := by
  induction rounds generalizing s with
  | zero =>
      exact .unfinished
  | succ rounds ih =>
      refine (htest s hs).andThen fun v s hs => ?_
      split
      · exact (hbody s hs).andThen fun _ s hs => ih hs
      · exact .value hs .null

theorem Eval.imports_checked {load : String → Session H → Run H}
    (hload : ∀ reference s, s.Checked loader depth → (load reference s).Checked loader depth)
    (last : Value) (references : List String) (hs : s.Checked loader depth) :
    (Eval.imports load last references s).Checked loader depth := by
  induction references generalizing last s with
  | nil =>
      exact .value hs last
  | cons reference rest ih =>
      exact (hload reference s hs).andThen fun v s hs => ih v hs

/-- Operands that there are have a value or do not match. -/
theorem Eval.combine_checked (op : Operator) {operands : List Value} (hsome : operands ≠ [])
    (hs : s.Checked loader depth) : (Eval.combine op operands s).Checked loader depth := by
  cases operands with
  | nil =>
      exact absurd rfl hsome
  | cons first rest =>
      simp only [Eval.combine]
      cases op.fold first rest with
      | ok v =>
          exact .value hs v
      | error mismatch =>
          exact .failed hs (.of_not_structural (by simp [EvalFault.Structural, EvalFault.kind]))

variable (hev : ∀ node : Node, node.Checked → ∀ depth s, s.Checked loader depth →
  (ev node s).Checked loader depth)

include hev

/-- The statements of a block leave a session checked, one after the other. -/
theorem Eval.block_checked {statements : List Node}
    (hstatements : ∀ statement ∈ statements, statement.Checked)
    (last : Value) (hs : s.Checked loader depth) :
    (Eval.block ev last statements s).Checked loader depth := by
  induction statements generalizing last s with
  | nil =>
      exact .value hs last
  | cons statement rest ih =>
      obtain ⟨hstatement, hrest⟩ := List.forall_mem_cons.mp hstatements
      exact (hev statement hstatement depth s hs).andThen fun v s hs => ih hrest v hs

/-- Values are gone on with in the number of the trees that they are values of. -/
theorem Eval.all_checked {next : List Value → Session H → Run H} {nodes : List Node}
    (hnodes : ∀ node ∈ nodes, node.Checked) (done : List Value)
    (hnext : ∀ vs : List Value, vs.length = done.length + nodes.length →
      ∀ s, s.Checked loader depth → (next vs s).Checked loader depth)
    (hs : s.Checked loader depth) :
    (Eval.all ev next done nodes s).Checked loader depth := by
  induction nodes generalizing done s with
  | nil =>
      exact hnext done.reverse List.length_reverse s hs
  | cons node rest ih =>
      obtain ⟨hnode, hrest⟩ := List.forall_mem_cons.mp hnodes
      refine (hev node hnode depth s hs).andThen fun v s hs => ih hrest (v :: done) ?_ hs
      intro vs hlength
      apply hnext vs
      rw [hlength, List.length_cons, List.length_cons]
      omega

/-- A body runs with one frame more, and may return. -/
theorem Eval.callBody_checked {body : Node} (hbody : body.Checked)
    (bindings : List (String × Value)) (hs : s.Checked loader depth) :
    (Eval.callBody ev body bindings s).Checked loader depth := by
  have hrun := (hev body hbody _ _ (hs.called bindings)).settle
  unfold Eval.callBody
  generalize ev body (s.called bindings) = run at hrun ⊢
  cases run with
  | none =>
      exact .unfinished
  | some result =>
      cases hrun with
      | finished hs' hfault =>
          exact Eval.closeFrame_checked (hs'.of_eq rfl rfl rfl rfl) hs.depth_pos hfault

/-- A call is refused, runs a tame function of the host, or runs a checked body. -/
theorem Eval.invoke_checked (name : String) (args : List Value) (hs : s.Checked loader depth) :
    (Eval.invoke ev name args s).Checked loader depth := by
  rcases Eval.invoke_cases name args s with
    ⟨fault, hrefused, hinvoke⟩ | ⟨run, hfunction, hinvoke⟩ |
    ⟨params, body, bindings, hfunction, _, hinvoke⟩
  · rw [hinvoke]
    exact .failed hs hrefused.expected
  · have htame : Native.Tame run := hs.functions _ (Table.mem_of_find hfunction)
    rw [hinvoke]
    refine .ofExcept (hs.of_eq rfl rfl rfl rfl) fun fault hfault => ?_
    exact .of_not_structural (htame _ _ _ fault hfault)
  · have hbody : body.Checked := hs.functions _ (Table.mem_of_find hfunction)
    rw [hinvoke]
    exact Eval.callBody_checked hev hbody bindings hs

theorem Eval.runUnit_checked {load : String → Session H → Run H} {program : Program}
    (hload : ∀ reference s, s.Checked loader depth → (load reference s).Checked loader depth)
    (hprogram : program.Checked) (hs : s.Checked loader depth) :
    (Eval.runUnit ev load program s).Checked loader depth := by
  have hset : (s.setGlobals program.globals).Checked loader depth := hs.of_eq rfl rfl rfl rfl
  refine (Eval.imports_checked hload _ _ hset).andThen fun _ s hs => ?_
  exact (Eval.block_checked hev hprogram _ hs).settle

/-- A unit that is imported has been read, and so is checked, like those that it imports. -/
theorem Eval.importUnit_checked (levels : Nat) (reference : String)
    (hs : s.Checked loader depth) :
    (Eval.importUnit ev levels reference s).Checked loader depth := by
  induction levels generalizing reference s with
  | zero =>
      exact .unfinished
  | succ levels ih =>
      simp only [Eval.importUnit, hs.loader_eq]
      cases hload : Eval.loadUnit loader reference with
      | error fault =>
          exact .failed hs (Eval.loadUnit_expected hload)
      | ok program =>
          have hprogram := Eval.loadUnit_checked hload
          exact Eval.runUnit_checked hev (fun reference s hs => ih reference hs) hprogram
            (hs.addProgram hprogram)

theorem Eval.runProgram_checked (levels : Nat) (name : String) (hs : s.Checked loader depth) :
    (Eval.runProgram ev levels name s).Checked loader depth := by
  unfold Eval.runProgram
  cases hprogram : s.programs.get? name with
  | none =>
      exact .failed hs (.of_not_structural (by simp [EvalFault.Structural, EvalFault.kind]))
  | some program =>
      exact Eval.runUnit_checked hev
        (fun reference s hs => Eval.importUnit_checked hev levels reference hs)
        (hs.programs _ (Table.mem_of_find hprogram)) hs

/-- Every construct of a checked tree keeps a session checked, if its parts do. -/
theorem Eval.step_checked (fuel : Nat) {node : Node} (hnode : node.Checked)
    (hs : s.Checked loader depth) :
    (Eval.step ev fuel node s).Checked loader depth := by
  have hparts : ∀ part ∈ node.parts, part.Checked := fun part hmem =>
    hnode.of_mem (Node.mem_children_of_mem_parts hmem)
  have hpart : ∀ part ∈ node.parts, ∀ depth s, s.Checked loader depth →
      (ev part s).Checked loader depth := fun part hmem =>
    hev part (hparts part hmem)
  cases node with
  | literal v =>
      exact .value hs v
  | block statements =>
      exact Eval.block_checked hev hparts .null hs
  | var name =>
      exact .ofExcept hs fun fault => s.getGlobal_expected
  | localVar name value =>
      cases value with
      | none =>
          exact .ofExcept hs fun fault => s.getLocal_expected
      | some value =>
          refine (hpart value (List.mem_singleton_self value) depth s hs).andThen fun v s hs => ?_
          exact .ofExcept (hs.setLocal name v) fun fault => (s.setLocal name v).getLocal_expected
  | set name value =>
      refine (hpart value (List.mem_singleton_self value) depth s hs).andThen fun v s hs => ?_
      exact .value (s := s.setGlobal name v) (hs.of_eq rfl rfl rfl rfl) v
  | setLocal name value =>
      refine (hpart value (List.mem_singleton_self value) depth s hs).andThen fun v s hs => ?_
      exact .value (hs.setLocal name v) v
  | branch condition thenBranch elseBranch =>
      simp only [Eval.step]
      refine Eval.inFrame_checked (fun s hs => ?_) hs
      refine (hpart condition List.mem_cons_self _ s hs).andThen fun v s hs => ?_
      split
      · exact hpart thenBranch (List.mem_cons_of_mem _ List.mem_cons_self) _ s hs
      · cases elseBranch with
        | none =>
            exact .value hs .null
        | some node =>
            exact hpart node (by simp [Node.parts]) _ s hs
  | forLoop init condition step code =>
      simp only [Eval.step]
      refine Eval.inFrame_checked (fun s hs => ?_) hs
      refine (hpart init (by simp [Node.parts]) _ s hs).andThen fun _ s hs => ?_
      refine Eval.repeatWhile_checked (hpart condition (by simp [Node.parts]) _) (fun s hs => ?_)
        fuel hs
      refine (hpart code (by simp [Node.parts]) _ s hs).andThen fun _ s hs => ?_
      exact hpart step (by simp [Node.parts]) _ s hs
  | whileLoop condition code =>
      simp only [Eval.step]
      refine Eval.inFrame_checked (fun s hs => ?_) hs
      exact Eval.repeatWhile_checked (hpart condition (by simp [Node.parts]) _)
        (hpart code (by simp [Node.parts]) _) fuel hs
  | switch value cases =>
      simp only [Eval.step]
      refine Eval.inFrame_checked (fun s hs => ?_) hs
      refine (hpart value List.mem_cons_self _ s hs).andThen fun v s hs => ?_
      cases hchosen : Eval.chooseCase v cases with
      | none =>
          exact .value hs .null
      | some node =>
          exact hpart node (List.mem_cons_of_mem value (Eval.mem_of_chooseCase hchosen)) _ s hs
  | define name params code =>
      have hcode : Function.Checked (H := H) (.user params code) :=
        hnode.of_mem (List.mem_singleton_self code)
      exact .value (hs.define name hcode) _
  | call name args =>
      exact Eval.all_checked hev hparts [] (fun vs _ s hs => Eval.invoke_checked hev name vs hs) hs
  | ret value =>
      refine (hpart value (List.mem_singleton_self value) depth s hs).andThen fun v s hs => ?_
      exact .returned hs v
  | imports references =>
      exact Eval.imports_checked
        (fun reference s hs => Eval.importUnit_checked hev fuel reference hs) _ _ hs
  | list items =>
      exact Eval.all_checked hev hparts [] (fun vs _ s hs => .value hs _) hs
  | operation op operands =>
      refine Eval.all_checked hev hparts [] (fun vs hlength s hs => ?_) hs
      refine Eval.combine_checked op ?_ hs
      have hsome : 0 < operands.length := List.length_pos_iff.mpr hnode.here
      rw [List.length_nil, Nat.zero_add] at hlength
      exact List.length_pos_iff.mp (hlength ▸ hsome)
  | comment =>
      exact .value hs .null

end Constructs

/-- Evaluation of a checked tree leaves a session checked, by induction on the fuel. -/
theorem eval_checked {loader : Loader} (fuel : Nat) {node : Node} (hnode : node.Checked)
    {depth : Nat} {s : Session H} (hs : s.Checked loader depth) :
    (eval fuel node s).Checked loader depth := by
  induction fuel generalizing node depth s with
  | zero =>
      exact .unfinished
  | succ fuel ih =>
      exact Eval.step_checked (fun node hnode depth s hs => ih hnode hs) fuel hnode hs

section Requests

/-- A session as it is before the first request, with some limit on calls. -/
def Session.fresh (host : H) (console : Console H) (loader : Loader) (limit : Nat) : Session H where
  host
  console
  loader
  maxCallDepth := limit

/-- The session that a request leaves behind. -/
inductive Session.Requested (s : Session H) : Session H → Prop
  | loadText (text : String) : Requested s (s.loadText text).2
  | runText {fuel : Nat} {text : String} {result : Except Fault Value} {s' : Session H}
      (h : s.runText fuel text = some (result, s')) : Requested s s'
  | runProgram {fuel : Nat} {name : String} {result : Except Fault Value} {s' : Session H}
      (h : s.runProgram fuel name = some (result, s')) : Requested s s'
  | evalDocument {fuel : Nat} {document : Json} {result : Except Fault Value} {s' : Session H}
      (h : s.evalDocument fuel document = some (result, s')) : Requested s s'
  | runStatement {fuel : Nat} {text : String} {result : Except Fault Value} {s' : Session H}
      (h : s.runStatement fuel text = some (result, s')) : Requested s s'
  | importProgram {fuel : Nat} {reference : String} {result : Except Fault Value} {s' : Session H}
      (h : s.importProgram fuel reference = some (result, s')) : Requested s s'
  | invoke {fuel : Nat} {name : String} {args : List Value} {result : Except Fault Value}
      {s' : Session H}
      (h : s.invoke fuel name args = some (result, s')) : Requested s s'
  | registerNative (name : String) {run : Native H} (htame : run.Tame) :
      Requested s (s.define name (.native run))
  | reset : Requested s s.reset

/-- What an evaluation is started with from outside. -/
inductive Session.Starts (s : Session H) : Run H → Prop
  | tree {document : Json} {node : Node} (fuel : Nat) (hread : Node.ofJson document = .ok node) :
      Starts s (eval fuel node s)
  | invoke (fuel : Nat) (name : String) (args : List Value) :
      Starts s (Eval.invoke (eval fuel) name args s)
  | importUnit (fuel levels : Nat) (reference : String) :
      Starts s (Eval.importUnit (eval fuel) levels reference s)
  | runProgram (fuel levels : Nat) (name : String) :
      Starts s (Eval.runProgram (eval fuel) levels name s)

variable {loader : Loader} {depth : Nat} {s s' : Session H}

/-- A new session is checked: its only function is `print`. -/
theorem Session.fresh_checked (host : H) (console : Console H) (loader : Loader) (limit : Nat) :
    (Session.fresh host console loader limit).Checked loader 1 := by
  refine ⟨rfl, rfl, Nat.one_pos, ?_, List.forall_mem_nil _⟩
  exact List.forall_mem_singleton.mpr Native.print_tame

/-- What is started from outside is a tree that has been read, a call, an import or a unit. -/
theorem Session.Starts.checked {run : Run H} (hstarts : s.Starts run)
    (hs : s.Checked loader depth) : run.Checked loader depth := by
  have hev (fuel : Nat) (node : Node) (hnode : node.Checked) (depth : Nat) (s : Session H)
      (hs : s.Checked loader depth) : (eval fuel node s).Checked loader depth :=
    eval_checked fuel hnode hs
  cases hstarts with
  | tree fuel hread =>
      exact eval_checked fuel (Node.checked_of_read hread) hs
  | invoke fuel name args =>
      exact Eval.invoke_checked (hev fuel) name args hs
  | importUnit fuel levels reference =>
      exact Eval.importUnit_checked (hev fuel) levels reference hs
  | runProgram fuel levels name =>
      exact Eval.runProgram_checked (hev fuel) levels name hs

theorem Session.Starts.checked_of_answer {run : Run H} {result : Except Fault Value}
    (hstarts : s.Starts run) (hs : s.Checked loader depth)
    (hanswer : run.answer = some (result, s')) : s'.Checked loader depth := by
  have hrun := hstarts.checked hs
  obtain ⟨⟨outcome, s''⟩, rfl, heq⟩ := Option.map_eq_some_iff.mp hanswer
  cases heq
  cases hrun with
  | finished hs' _ =>
      exact hs'

/-- A unit is entered only if it is read, and otherwise nothing changes. -/
theorem Session.loadText_checked (hs : s.Checked loader depth) (text : String) :
    (s.loadText text).2.Checked loader depth := by
  unfold Session.loadText
  cases hread : Program.read text with
  | ok program =>
      exact hs.addProgram (Program.checked_of_read hread)
  | error source =>
      exact hs

theorem Session.evalDocument_checked {fuel : Nat} {document : Json} {result : Except Fault Value}
    (hs : s.Checked loader depth) (h : s.evalDocument fuel document = some (result, s')) :
    s'.Checked loader depth := by
  unfold Session.evalDocument at h
  cases hread : Node.ofJson document with
  | ok node =>
      simp only [hread] at h
      exact (Session.Starts.tree fuel hread).checked_of_answer hs h
  | error source =>
      simp only [hread] at h
      cases h
      exact hs

/-- A statement is evaluated as the document that its text stands for. -/
theorem Session.runStatement_checked {fuel : Nat} {text : String} {result : Except Fault Value}
    (hs : s.Checked loader depth) (h : s.runStatement fuel text = some (result, s')) :
    s'.Checked loader depth := by
  unfold Session.runStatement Node.read at h
  cases hread : Json.read text with
  | ok document =>
      simp only [hread] at h
      exact Session.evalDocument_checked hs h
  | error fault =>
      simp only [hread] at h
      cases h
      exact hs

/-- To run the text of a unit is to load it, and then to run it by its name. -/
theorem Session.runText_checked {fuel : Nat} {text : String} {result : Except Fault Value}
    (hs : s.Checked loader depth) (h : s.runText fuel text = some (result, s')) :
    s'.Checked loader depth := by
  have hloaded := Session.loadText_checked hs text
  unfold Session.runText at h
  generalize s.loadText text = loaded at h hloaded
  obtain ⟨answer, s₁⟩ := loaded
  cases answer with
  | ok name =>
      exact (Session.Starts.runProgram fuel fuel name).checked_of_answer hloaded h
  | error fault =>
      cases h
      exact hloaded

/-- A request leaves the session checked, with the one frame that it found. -/
theorem Session.Requested.checked (hrequested : s.Requested s') (hs : s.Checked loader 1) :
    s'.Checked loader 1 := by
  cases hrequested with
  | loadText text =>
      exact Session.loadText_checked hs text
  | runText h =>
      exact Session.runText_checked hs h
  | @runProgram fuel name _ _ h =>
      exact (Session.Starts.runProgram fuel fuel name).checked_of_answer hs h
  | evalDocument h =>
      exact Session.evalDocument_checked hs h
  | runStatement h =>
      exact Session.runStatement_checked hs h
  | @importProgram fuel reference _ _ h =>
      exact (Session.Starts.importUnit fuel fuel reference).checked_of_answer hs h
  | @invoke fuel name args _ _ h =>
      exact (Session.Starts.invoke fuel name args).checked_of_answer hs h
  | registerNative name htame =>
      exact hs.define name htame
  | reset =>
      exact hs.reset

/-- The session stays checked from one request to the next. -/
theorem Session.checked_of_requests (hrequests : Relation.ReflTransGen Session.Requested s s')
    (hs : s.Checked loader 1) : s'.Checked loader 1 := by
  induction hrequests with
  | refl =>
      exact hs
  | tail _ hrequested ih =>
      exact hrequested.checked ih

end Requests

/--
In every session that requests lead to, the code of functions and the statements of units
are trees of scalar literals whose operations have operands. So no evaluation that is
started there fails since a tree is malformed or since there is but one frame to close,
and where it fails with a fault of the shape of a document, that document is a unit which
an import was to load.
-/
theorem requests_keep_checked
    {host : H} {console : Console H} {loader : Loader} {limit : Nat} {s : Session H}
    (hrequests : Relation.ReflTransGen Session.Requested
      (Session.fresh host console loader limit) s) :
    (∀ name params body, s.functions.get? name = some (.user params body) →
      Everywhere Node.children (Node.Regular fun _ => True) body) ∧
    (∀ name program, s.programs.get? name = some program →
      ∀ statement ∈ program.statements,
        Everywhere Node.children (Node.Regular fun _ => True) statement) ∧
    ∀ run fault s', s.Starts run → run = some (.failed fault, s') →
      (∀ source, fault ≠ .malformed source) ∧
      fault ≠ .rootFrame ∧
      (fault.kind = .shape ∨ fault.kind = .unknownConstruct →
        ∃ reference text source,
          loader reference = .ok text ∧ Program.read text = .error source ∧
          fault = .invalidUnit reference source) := by
  have hs := Session.checked_of_requests hrequests
    (Session.fresh_checked host console loader limit)
  refine ⟨?_, ?_, ?_⟩
  · intro name params body hbody
    exact hs.functions _ (Table.mem_of_find hbody)
  · intro name program hprogram
    exact hs.programs _ (Table.mem_of_find hprogram)
  · rintro _ fault s' hstarts rfl
    cases hstarts.checked hs with
    | finished _ hfault =>
        have hexpected := hfault fault rfl
        exact ⟨hexpected.ne_malformed, hexpected.ne_rootFrame,
          fun hkind => hexpected (.inr hkind)⟩

/-- A session whose only unit is a sum of nothing. -/
def Session.emptySum : Session Unit :=
  .fresh () ⟨fun _ host => (.ok (), host), fun host => (.ok (), host)⟩
    (.ofTable ⟨[("sum", "\x7b\"code\":\x7b\"+\":[]\x7d\x7d")]⟩) 10

/-- The unit that defines a function `f`, whose code imports the sum. -/
def Program.importingText : String :=
  "\x7b\"code\":\x7b\"def\":\x7b\"name\":\"f\",\"code\":\x7b\"import\":\"sum\"\x7d\x7d\x7d\x7d"

theorem requests_keep_checked_emptySum :
    ∃ s s' : Session Unit,
      Relation.ReflTransGen Session.Requested Session.emptySum s ∧
      eval 5 (.call "f" []) s =
        some (.failed (.invalidUnit "sum" (.shape (.operator .add) .noOperand)), s') ∧
      ∃ reference text source,
        Session.emptySum.loader reference = .ok text ∧ Program.read text = .error source ∧
        EvalFault.invalidUnit "sum" (.shape (.operator .add) .noOperand) =
          .invalidUnit reference source := by
  have hrun : ∃ result s, Session.emptySum.runText 5 Program.importingText = some (result, s) ∧
      ∃ s', eval 5 (.call "f" []) s =
        some (.failed (.invalidUnit "sum" (.shape (.operator .add) .noOperand)), s') :=
    ⟨_, _, rfl, _, rfl⟩
  obtain ⟨result, s, hrequest, s', heval⟩ := hrun
  have hrequests : Relation.ReflTransGen Session.Requested Session.emptySum s :=
    .single (.runText hrequest)
  have hread : Node.ofJson (.object [("call", .string "f")]) = .ok (.call "f" []) := rfl
  obtain ⟨_, _, hfault⟩ := requests_keep_checked hrequests
  obtain ⟨_, _, hunit⟩ := hfault _ _ s' (.tree 5 hread) heval
  exact ⟨s, s', hrequests, heval, hunit (.inl rfl)⟩

end DocScript
