import DocScript.Proofs.Balance
import DocScript.Proofs.Invariants
import DocScript.Proofs.Resetting

/-!
# No reference is left dangling

A reference comes into being with the definition of a function, and evaluation passes it
on: it is kept in variables, bound to parameters, put into lists and returned from calls
and units. A reset removes functions, but all variables with them.

The invariant is `Session.Closed`: what variables and frames refer to is known. Trees have
been read, so that their literals refer to nothing. Functions of the host are trusted to
return no references but those they were given.

**Results.**
* `Program.plain_of_read`: a unit that is read sets its variables to values without references.
* `Invariant.references`, `eval_closed`: evaluation keeps a session closed, and all is known
  that the value refers to which it comes to.
* `Session.Operated.closed`: so does whatever a session is asked to do.
* `references_stay_registered`: what holds of every session that is reached.
-/

namespace DocScript

variable {H : Type}

section Invariant

/-- A function of the host that returns no references but those in its arguments. -/
def Native.PassesOn (run : Native H) : Prop :=
  ∀ console args host value, (run console args host).1 = .ok value →
    ∀ name, value.Refers name → ∃ arg ∈ args, arg.Refers name

/-- What `print` returns is null. -/
theorem Native.print_passesOn : Native.PassesOn (Native.print : Native H) := by
  intro console args host value hvalue name hrefers
  have hnull : value = .null := by
    unfold Native.print at hvalue
    simp only at hvalue
    split at hvalue
    · cases hvalue
    · split at hvalue
      · cases hvalue
      · cases hvalue
        rfl
  subst hnull
  cases hrefers

/-- A function with checked code, or one of the host that passes references on. -/
def Function.PassesOn : Function H → Prop
  | .native run => Native.PassesOn run
  | .user _ body => body.Checked

/-- A unit of checked trees whose variables are set to values without references. -/
structure Program.Plain (program : Program) : Prop where
  checked : program.Checked
  globals : ∀ binding ∈ program.globals, ∀ name, ¬ binding.2.Refers name

/-- The variables of a unit are set to documents, which refer to nothing. -/
theorem Program.plain_of_read {text : String} {program : Program}
    (hread : Program.read text = .ok program) : program.Plain := by
  refine ⟨Program.checked_of_read hread, fun binding hbinding name => ?_⟩
  unfold Program.read at hread
  split at hread
  · rename_i document _
    cases document with
    | object members =>
        simp only [Program.ofJson, bind_eq_ok_iff] at hread
        obtain ⟨_, _, globals, hglobals, _, _, _, _, hprogram⟩ := hread
        cases hprogram
        rw [Program.globalsOf.eq_def] at hglobals
        split at hglobals
        · cases hglobals
          cases hbinding
        · cases hglobals
          obtain ⟨member, _, heq⟩ := Value.exists_of_mem_ofMembers hbinding
          rw [heq]
          exact Value.not_refers_ofJson member.2
        · cases hglobals
    | _ =>
        cases hread
  · cases hread

/-- All that variables refer to is there; functions and units make no references up. -/
structure Session.Closed (s : Session H) : Prop where
  globals : ∀ entry ∈ s.globals.entries, entry.2.KnownIn s.functions
  scopes : s.scopes.Hold (Value.KnownIn s.functions)
  functions : ∀ entry ∈ s.functions.entries, entry.2.PassesOn
  programs : ∀ entry ∈ s.programs.entries, entry.2.Plain

namespace Session.Closed

variable {s : Session H}

/-- In a new session nothing refers to a function. -/
theorem fresh (host : H) (console : Console H) (loader : Loader) (limit : Nat) :
    (Session.fresh host console loader limit).Closed where
  globals := List.forall_mem_nil _
  scopes := Scopes.Hold.root
  functions := List.forall_mem_singleton.mpr Native.print_passesOn
  programs := List.forall_mem_nil _

/-- All is known that the value of a global variable refers to. -/
theorem getGlobal {name : String} {value : Value} (h : s.Closed)
    (hvalue : s.getGlobal name = .ok value) : value.KnownIn s.functions := by
  unfold Session.getGlobal at hvalue
  split at hvalue
  · rename_i hget
    cases hvalue
    exact h.globals _ (Table.mem_of_find hget)
  · cases hvalue

/-- All is known that the value of a local variable refers to. -/
theorem getLocal {name : String} {value : Value} (h : s.Closed)
    (hvalue : s.getLocal name = .ok value) : value.KnownIn s.functions := by
  unfold Session.getLocal at hvalue
  split at hvalue
  · rename_i hlookup
    cases hvalue
    exact h.scopes.lookup hlookup
  · cases hvalue

theorem setGlobals (h : s.Closed) {bindings : List (String × Value)}
    (hbindings : ∀ binding ∈ bindings, binding.2.KnownIn s.functions) :
    (s.setGlobals bindings).Closed :=
  ⟨Table.forall_insertAll h.globals hbindings, h.scopes, h.functions, h.programs⟩

/-- The variables of a unit that was read may be set. -/
theorem setHeader (h : s.Closed) {program : Program} (hprogram : program.Plain) :
    (s.setGlobals program.globals).Closed :=
  h.setGlobals fun binding hbinding name hrefers =>
    absurd hrefers (hprogram.globals binding hbinding name)

theorem setGlobal (h : s.Closed) (name : String) {value : Value}
    (hvalue : value.KnownIn s.functions) : (s.setGlobal name value).Closed :=
  ⟨Table.forall_insert h.globals hvalue, h.scopes, h.functions, h.programs⟩

theorem withScopes (h : s.Closed) {scopes : Scopes}
    (hscopes : scopes.Hold (Value.KnownIn s.functions)) (callDepth : Nat) :
    { s with scopes, callDepth }.Closed :=
  ⟨h.globals, hscopes, h.functions, h.programs⟩

theorem withHost (h : s.Closed) (host : H) : { s with host }.Closed :=
  ⟨h.globals, h.scopes, h.functions, h.programs⟩

/-- References stay good when a function is added or replaced. -/
theorem define (h : s.Closed) (name : String) {function : Function H}
    (hfunction : function.PassesOn) : (s.define name function).Closed where
  globals entry hentry := (h.globals entry hentry).insert name function
  scopes := h.scopes.imp fun _ hvalue => hvalue.insert name function
  functions := Table.forall_insert h.functions hfunction
  programs := h.programs

theorem addProgram (h : s.Closed) {program : Program} (hprogram : program.Plain) :
    (s.addProgram program).Closed :=
  ⟨h.globals, h.scopes, h.functions, Table.forall_insert h.programs hprogram⟩

/-- A reset removes functions, but no variable is left to refer to one. -/
theorem reset (h : s.Closed) : s.reset.Closed where
  globals := List.forall_mem_nil _
  scopes := Scopes.Hold.root
  functions entry hentry := h.functions entry (List.mem_filter.mp hentry).1
  programs := List.forall_mem_nil _

end Session.Closed

end Invariant

/-- What evaluation makes of references: trees have been read, and any fault may come up. -/
def Invariant.references : Invariant H where
  Holds := Session.Closed
  Fits := Value.KnownIn
  Fault _ := True
  Tree := Node.Checked
  tree_child hnode hchild := hnode.of_mem hchild
  literal hnode functions name hrefers := absurd hrefers (Value.not_refers_of_isScalar hnode.here)
  null _ := Value.knownIn_null
  list := Value.KnownIn.list
  fold hfold hoperands name hrefers := by
    obtain ⟨operand, hmem, h⟩ := Operator.refers_of_fold hfold hrefers
    exact hoperands operand hmem name h
  grown h hgrown := h.mono hgrown
  fault _ := trivial
  refused _ _ := trivial
  getGlobal := Session.Closed.getGlobal
  getLocal := Session.Closed.getLocal
  native {s name run args} hs hfunction hargs := by
    have hpasses : Native.PassesOn run := hs.functions _ (Table.mem_of_find hfunction)
    refine ⟨hs.withHost _, fun v hv other hrefers => ?_, fun _ _ => trivial⟩
    obtain ⟨arg, harg, h⟩ := hpasses _ args _ v hv other hrefers
    exact hargs arg harg other h
  user hs hfunction := hs.functions _ (Table.mem_of_find hfunction)
  setGlobal hs hv name := hs.setGlobal name hv
  setLocal hs hv name := hs.withScopes (hs.scopes.assign name hv) _
  define {s code} hs hcode name params := by
    have hfunction : Function.PassesOn (H := H) (.user params code) := hcode
    refine ⟨hs.define name hfunction, fun other hrefers => ?_⟩
    cases hrefers
    exact Table.contains_insert_self _ _ _
  enterScope hs := hs.withScopes hs.scopes.push _
  closeScope hs := hs.withScopes hs.scopes.pop _
  called {s bindings} hs hbindings := by
    rw [Session.called_eq]
    exact hs.withScopes (hs.scopes.pushBound hbindings) _
  exitCall hs := hs.withScopes hs.scopes _
  loaded hs hread := by
    have hplain := Program.plain_of_read hread
    exact ⟨(hs.addProgram hplain).setHeader hplain, hplain.checked⟩
  registered hs hprogram := by
    have hplain := hs.programs _ (Table.mem_of_find hprogram)
    exact ⟨hs.setHeader hplain, hplain.checked⟩

/-- Whatever a run comes to, it leaves a closed session, in which all is known. -/
def Run.Closed (run : Run H) : Prop :=
  ∀ outcome s, run = some (outcome, s) → s.Closed ∧ outcome.KnownIn s.functions

/-- A run that keeps references in order leaves a closed session, in which all is known. -/
theorem Invariant.Keeps.closed {run : Run H} (h : Invariant.references.Keeps run) :
    run.Closed := by
  intro outcome s hrun
  obtain ⟨hs, houtcome⟩ := h.of_eq_some hrun
  refine ⟨hs, ?_⟩
  cases outcome <;> exact houtcome

section Evaluation

variable (fuel : Nat) {s : Session H} (hs : s.Closed)

include hs

/-- Evaluation keeps a session closed. -/
theorem eval_closed {node : Node} (hnode : node.Checked) : (eval fuel node s).Closed :=
  (Invariant.references.eval_keeps fuel hnode hs).closed

theorem Eval.invoke_closed (name : String) {args : List Value}
    (hargs : ∀ arg ∈ args, arg.KnownIn s.functions) :
    (Eval.invoke (eval fuel) name args s).Closed :=
  (Invariant.invoke_keeps (I := .references)
    (fun _ hnode _ hs => Invariant.references.eval_keeps fuel hnode hs) name hargs hs).closed

theorem Eval.importUnit_closed (depth : Nat) (reference : String) :
    (Eval.importUnit (eval fuel) depth reference s).Closed :=
  (Invariant.importUnit_keeps (I := .references)
    (fun _ hnode _ hs => Invariant.references.eval_keeps fuel hnode hs) depth reference hs).closed

theorem Eval.runProgram_closed (depth : Nat) (name : String) :
    (Eval.runProgram (eval fuel) depth name s).Closed :=
  (Invariant.runProgram_keeps (I := .references)
    (fun _ hnode _ hs => Invariant.references.eval_keeps fuel hnode hs) depth name hs).closed

end Evaluation

section Operations

/-- All functions are known that the arguments of a request refer to. -/
def Request.KnownIn (functions : Table (Function H)) : Request → Prop
  | .invoke _ args => ∀ arg ∈ args, arg.KnownIn functions
  | _ => True

/-- What can be done to a session from outside, with values that refer to known functions. -/
inductive Session.Operated (s : Session H) : Session H → Prop
  | served {fuel : Nat} {request : Request} {s' : Session H}
      (hargs : request.KnownIn s.functions) (h : s.serve fuel request = some s') : Operated s s'
  | loadFile (disk : Disk) (path : String) : Operated s (s.loadFile disk path).2
  | setGlobal (name : String) {value : Value} (hvalue : value.KnownIn s.functions) :
      Operated s (s.setGlobal name value)
  | registerNative (name : String) {run : Native H} (hpasses : run.PassesOn) :
      Operated s (s.define name (.native run))
  | reset : Operated s s.reset

variable {s s' : Session H}

/-- What an evaluation at the top leaves behind is closed if the evaluation is. -/
theorem Run.Closed.of_answer {run : Run H} (hrun : run.Closed)
    (h : run.answer.map Prod.snd = some s') : s'.Closed := by
  obtain ⟨⟨outcome, s''⟩, hfinished, rfl⟩ : ∃ finished, run = some finished ∧ finished.2 = s' := by
    simpa [Run.answer] using h
  exact (hrun outcome s'' hfinished).1

/-- A unit is entered only if it is read. -/
theorem Session.loadText_closed (hs : s.Closed) (text : String) : (s.loadText text).2.Closed := by
  unfold Session.loadText
  cases hread : Program.read text with
  | ok program =>
      exact hs.addProgram (Program.plain_of_read hread)
  | error source =>
      exact hs

theorem Session.loadFile_closed (hs : s.Closed) (disk : Disk) (path : String) :
    (s.loadFile disk path).2.Closed := by
  unfold Session.loadFile
  split
  · exact Session.loadText_closed hs _
  · exact hs

theorem Session.evalDocument_closed {fuel : Nat} {document : Json} (hs : s.Closed)
    (h : (s.evalDocument fuel document).map Prod.snd = some s') : s'.Closed := by
  unfold Session.evalDocument at h
  cases hread : Node.ofJson document with
  | ok node =>
      simp only [hread] at h
      exact (eval_closed fuel hs (Node.checked_of_read hread)).of_answer h
  | error source =>
      simp only [hread] at h
      cases h
      exact hs

/-- A statement is evaluated as the document that its text stands for. -/
theorem Session.runStatement_closed {fuel : Nat} {text : String} (hs : s.Closed)
    (h : (s.runStatement fuel text).map Prod.snd = some s') : s'.Closed := by
  unfold Session.runStatement Node.read at h
  cases hread : Json.read text with
  | ok document =>
      simp only [hread] at h
      exact Session.evalDocument_closed hs h
  | error fault =>
      simp only [hread] at h
      cases h
      exact hs

/-- The text of a unit is loaded, and the unit runs by its name. -/
theorem Session.runText_closed {fuel : Nat} {text : String} (hs : s.Closed)
    (h : (s.runText fuel text).map Prod.snd = some s') : s'.Closed := by
  have hloaded := Session.loadText_closed hs text
  unfold Session.runText at h
  generalize s.loadText text = loaded at h hloaded
  obtain ⟨answer, s₁⟩ := loaded
  cases answer with
  | ok name =>
      exact (Eval.runProgram_closed fuel hloaded fuel name).of_answer h
  | error fault =>
      cases h
      exact hloaded

theorem Session.serve_closed {fuel : Nat} {request : Request}
    (hargs : request.KnownIn s.functions) (hs : s.Closed)
    (h : s.serve fuel request = some s') : s'.Closed := by
  cases request with
  | loadText text =>
      cases h
      exact Session.loadText_closed hs text
  | runText text =>
      exact Session.runText_closed hs h
  | runProgram name =>
      exact (Eval.runProgram_closed fuel hs fuel name).of_answer h
  | evalDocument document =>
      exact Session.evalDocument_closed hs h
  | runStatement text =>
      exact Session.runStatement_closed hs h
  | importProgram reference =>
      exact (Eval.importUnit_closed fuel hs fuel reference).of_answer h
  | invoke name args =>
      exact (Eval.invoke_closed fuel hs name hargs).of_answer h

/-- Whatever is done to a closed session from outside, it stays closed. -/
theorem Session.Operated.closed (hoperated : s.Operated s') (hs : s.Closed) : s'.Closed := by
  cases hoperated with
  | served hargs h =>
      exact Session.serve_closed hargs hs h
  | loadFile disk path =>
      exact Session.loadFile_closed hs disk path
  | setGlobal name hvalue =>
      exact hs.setGlobal name hvalue
  | registerNative name hpasses =>
      exact hs.define name hpasses
  | reset =>
      exact hs.reset

/-- A session stays closed from one operation to the next. -/
theorem Session.closed_of_operated (h : Relation.ReflTransGen Session.Operated s s')
    (hs : s.Closed) : s'.Closed := by
  induction h with
  | refl =>
      exact hs
  | tail _ hoperated ih =>
      exact hoperated.closed ih

end Operations

/--
In every session that is reached, all functions are there that a variable refers to, in
whichever frame. So are they when an evaluation that is started there ends, with all that
the value or the `return` refers to which it comes to. No evaluation, wherever it is
started, removes a function or a unit.
-/
theorem references_stay_registered
    {host : H} {console : Console H} {loader : Loader} {limit : Nat} {s : Session H}
    (hreached : Relation.ReflTransGen Session.Operated
      (Session.fresh host console loader limit) s) :
    (∀ entry ∈ s.globals.entries, entry.2.KnownIn s.functions) ∧
    (∀ index, ∀ entry ∈ (s.scopes.frame index).bindings.entries, entry.2.KnownIn s.functions) ∧
    (∀ fuel document node, Node.ofJson document = .ok node → (eval fuel node s).Closed) ∧
    (∀ fuel name args, (∀ arg ∈ args, arg.KnownIn s.functions) →
      (Eval.invoke (eval fuel) name args s).Closed) ∧
    (∀ fuel depth reference, (Eval.importUnit (eval fuel) depth reference s).Closed) ∧
    (∀ fuel depth name, (Eval.runProgram (eval fuel) depth name s).Closed) ∧
    ∀ fuel (t : Session H),
      (∀ node, (eval fuel node t).Extends t) ∧
      (∀ name args, (Eval.invoke (eval fuel) name args t).Extends t) ∧
      (∀ depth reference, (Eval.importUnit (eval fuel) depth reference t).Extends t) ∧
      (∀ depth name, (Eval.runProgram (eval fuel) depth name t).Extends t) := by
  have hs := Session.closed_of_operated hreached (.fresh host console loader limit)
  refine ⟨hs.globals, hs.scopes, ?_, ?_, ?_, ?_, evaluation_extends⟩
  · intro fuel document node hread
    exact eval_closed fuel hs (Node.checked_of_read hread)
  · intro fuel name args hargs
    exact Eval.invoke_closed fuel hs name hargs
  · intro fuel depth reference
    exact Eval.importUnit_closed fuel hs depth reference
  · intro fuel depth name
    exact Eval.runProgram_closed fuel hs depth name

/-- Defines `f` within a list, and keeps the list in a variable. -/
def Json.keptReference : Json :=
  .object [("set", .object
    [("name", .string "kept"),
      ("value", .object [("list", .array
        [.object [("def", .object [("code", .array []), ("name", .string "f")])]])])])]

theorem references_stay_registered_kept :
    ∃ s : Session Unit, Session.quiet.serve 8 (.evalDocument Json.keptReference) = some s ∧
      s.globals.get? "kept" = some (.list [.function "f"]) ∧
      s.functions.contains "f" = true ∧
      s.reset.functions.contains "f" = false ∧
      s.reset.globals.get? "kept" = none := by
  have hserve : ∃ s : Session Unit,
      Session.quiet.serve 8 (.evalDocument Json.keptReference) = some s ∧
      s.globals.get? "kept" = some (.list [.function "f"]) ∧
      s.reset.functions.contains "f" = false :=
    ⟨_, rfl, rfl, rfl⟩
  obtain ⟨s, hserve, hkept, hreset⟩ := hserve
  have hargs : (Request.evalDocument Json.keptReference).KnownIn Session.quiet.functions := trivial
  have hreached : Relation.ReflTransGen Session.Operated Session.quiet s :=
    .single (.served hargs hserve)
  obtain ⟨hglobals, _⟩ := references_stay_registered hreached
  have hknown := hglobals _ (Table.mem_of_find hkept) "f"
    (.item (List.mem_singleton_self _) (.here "f"))
  exact ⟨s, hserve, hkept, hknown, hreset, rfl⟩

end DocScript
