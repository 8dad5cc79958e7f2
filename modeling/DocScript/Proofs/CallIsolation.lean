import DocScript.Proofs.Balance

/-!
# Calls are isolated

The body of a user function is evaluated in a frame that continues none. So what
a call comes to is what its body comes to when it is evaluated *alone*, with the
parameters in the only frame there is, and the frames of the caller are left as
they were.

The two evaluations of the body simulate each other: the frames of the one are the
frames of the other, above the frames of the caller.
-/

namespace DocScript

/-- The pairs of names and values that arguments make with the parameters they match. -/
inductive Params.Binds : Params → List Value → List (String × Value) → Prop
  | fixed
      {names : List String} {args : List Value}
      (hlength : names.length = args.length) :
      Binds (.fixed names) args (names.zip args)
  | variadic
      {name : String} {args : List Value} :
      Binds (.variadic name) args [(name, .list args)]

theorem Params.Binds.bindArguments_eq
    {params : Params} {args : List Value} {bindings : List (String × Value)}
    (h : params.Binds args bindings) (function : String) :
    Eval.bindArguments function args params = .ok bindings := by
  cases h with
  | fixed hlength =>
      simp [Eval.bindArguments, hlength]
  | variadic =>
      rfl

/-- Frames above a base, beside the same frames without it; so many are on the base. -/
def Scopes.Above (base : Array Frame) (depth : Nat) (a b : Scopes) : Prop :=
  a = b.above base ∧ b.WellFormed ∧ b.depth = depth

/-- Closing a frame above the base leaves the base, as long as one more is on it. -/
theorem Scopes.closesInto_above (base : Array Frame) {depth : Nat} (hdepth : 0 < depth) :
    Scopes.ClosesInto (Scopes.Above base (depth + 1)) (Scopes.Above base depth) := by
  apply Scopes.ClosesInto.of_not_atRoot
  rintro _ b ⟨rfl, hformed, hb⟩
  refine ⟨?_, ?_, ?_, ?_, ?_⟩
  · apply Scopes.atRoot_eq_false
    rw [Scopes.depth_above]
    omega
  · apply Scopes.atRoot_eq_false
    omega
  · exact Scopes.pop_above base hformed.nonempty
  · exact hformed.pop (by omega)
  · rw [Scopes.depth_pop]
    omega

/-- Constructs do the same to frames above a base and to frames without it. -/
def FrameSimulation.above (base : Array Frame) : FrameSimulation where
  World := Nat
  Rel := Scopes.Above base
  lookup := by
    rintro depth _ b ⟨rfl, hformed, _⟩ name
    exact Scopes.lookup?_above base hformed name
  assign := by
    rintro depth _ b ⟨rfl, hformed, hdepth⟩ name value
    refine ⟨Scopes.assign_above base hformed name value, hformed.bindAt _ name value, ?_⟩
    rw [Scopes.depth_assign, hdepth]
  push := by
    rintro depth _ b ⟨rfl, hformed, hdepth⟩
    have hpos := hformed.nonempty
    refine ⟨depth + 1, ⟨Scopes.push_above base hpos, hformed.push, ?_⟩, ?_⟩
    · rw [Scopes.depth_push, hdepth]
    · exact Scopes.closesInto_above base (by omega)
  pushBound := by
    rintro depth _ b ⟨rfl, hformed, hdepth⟩ bindings
    have hpos := hformed.nonempty
    refine ⟨depth + 1, ⟨Scopes.pushBound_above base bindings, hformed.pushBound bindings, ?_⟩, ?_⟩
    · rw [Scopes.pushBound, Scopes.depth_pushFrame, hdepth]
    · exact Scopes.closesInto_above base (by omega)

section Sessions

variable {H : Type}

/-- A session whose only frame holds the parameters of a call, with the call counted. -/
def Session.alone (s : Session H) (bindings : List (String × Value)) : Session H :=
  { s with
    scopes := ⟨#[⟨Table.empty.insertAll bindings, none⟩]⟩
    callDepth := s.callDepth + 1 }

/-- The session after a call: the frames and the calls of the caller, all else from the body. -/
def Session.returnedTo (caller : Session H) (s : Session H) : Session H :=
  { s with scopes := caller.scopes, callDepth := caller.callDepth }

theorem Eval.invoke_user
    (ev : Eval.Evaluator H) {name : String} {args : List Value} {params : Params} {body : Node}
    {bindings : List (String × Value)} {s : Session H}
    (hfunction : s.functions.get? name = some (.user params body))
    (hbinds : params.Binds args bindings)
    (hlimit : s.callDepth < s.maxCallDepth) :
    Eval.invoke ev name args s = Eval.callBody ev body bindings s := by
  unfold Eval.invoke
  simp only [hfunction, hbinds.bindArguments_eq name, Session.enterCall_of_lt hlimit]
  rfl

theorem Session.called_eq_above (s : Session H) (bindings : List (String × Value)) :
    s.called bindings =
      { s.alone bindings with
        scopes := (s.alone bindings).scopes.above s.scopes.frames } := by
  have hbase : (Scopes.mk #[]).above s.scopes.frames = s.scopes := by
    simp [Scopes.above]
  rw [Session.called_eq]
  calc _ = { s with
          scopes := ((Scopes.mk #[]).above s.scopes.frames).pushBound bindings
          callDepth := s.callDepth + 1 } := by rw [hbase]
    _ = _ := by rw [Scopes.pushBound_above]; rfl

/-- Sessions at the start or the end of a body: in a call, and alone. -/
def Session.InBody (caller s t : Session H) : Prop :=
  (FrameSimulation.above caller.scopes.frames).InStep (1 : Nat) (caller.callDepth + 1) s t

theorem Session.inBody_start (s : Session H) (bindings : List (String × Value)) :
    s.InBody (s.called bindings) (s.alone bindings) := by
  have hformed : (s.alone bindings).scopes.WellFormed := by
    refine ⟨Nat.one_pos, fun index parent hlink => ?_⟩
    cases index with
    | zero =>
        cases hlink
    | succ index =>
        cases hlink
  rw [Session.called_eq_above]
  exact ⟨rfl, (s.alone bindings).scopes, ⟨rfl, hformed, rfl⟩, rfl⟩

/-- When the body is done, closing its frame gives the caller its frames back. -/
theorem Session.InBody.closeFrame_eq
    {caller s t : Session H} (hframe : 0 < caller.scopes.depth)
    (h : caller.InBody s t) (outcome : Outcome) :
    Eval.closeFrame outcome s.exitCall = some (outcome, caller.returnedTo t) := by
  obtain ⟨hcalls, frames, ⟨hframes, hformed, hdepth⟩, rfl⟩ := h
  have hroot : s.exitCall.scopes.atRoot = false := by
    change s.scopes.atRoot = false
    apply Scopes.atRoot_eq_false
    rw [hframes, Scopes.depth_above, hdepth]
    change 1 < caller.scopes.depth + 1
    omega
  -- One frame is left above those of the caller, as there was at the start of the body.
  have hempty : frames.pop.frames = #[] := by
    apply Array.eq_empty_of_size_eq_zero
    change frames.pop.depth = 0
    rw [Scopes.depth_pop, hdepth]
  have hpop : s.scopes.pop = caller.scopes := by
    rw [hframes, Scopes.pop_above _ hformed.nonempty]
    simp [Scopes.above, hempty]
  rw [Eval.closeFrame_of_not_atRoot hroot]
  simp only [Session.closeScope, Session.exitCall, Session.returnedTo, hpop, hcalls,
    Nat.add_sub_cancel]

/-- A call comes to what its body comes to alone, and gives the caller its frames back. -/
theorem Eval.invoke_eq_alone
    (fuel : Nat) {name : String} {args : List Value} {params : Params} {body : Node}
    {bindings : List (String × Value)} {s : Session H}
    (hframe : 0 < s.scopes.depth)
    (hfunction : s.functions.get? name = some (.user params body))
    (hbinds : params.Binds args bindings)
    (hlimit : s.callDepth < s.maxCallDepth) :
    Eval.invoke (eval fuel) name args s =
      (eval fuel body (s.alone bindings)).map fun (outcome, t) =>
        (outcome.settle, s.returnedTo t) := by
  rw [Eval.invoke_user (eval fuel) hfunction hbinds hlimit]
  unfold Eval.callBody
  obtain ⟨hcalled, halone⟩ | ⟨outcome, s', t, hcalled, halone, hbody⟩ :=
    (s.inBody_start bindings).eval_cases fuel body
  · rw [hcalled, halone]
    rfl
  · rw [hcalled, halone]
    exact Session.InBody.closeFrame_eq hframe hbody outcome.settle

/--
A call refines the evaluation of its body alone: it comes to the same outcome, with
a `return` arrived, and to the same session but for the frames and the calls, which
are those of the caller. So frames of the caller, whichever they are, neither
change a call nor are changed by it.
-/
theorem call_refines_body_alone
    (fuel : Nat) {name : String} {args : List Value} {params : Params} {body : Node}
    {bindings : List (String × Value)} {s : Session H}
    (hframe : 0 < s.scopes.depth)
    (hfunction : s.functions.get? name = some (.user params body))
    (hbinds : params.Binds args bindings)
    (hlimit : s.callDepth < s.maxCallDepth) :
    (Eval.invoke (eval fuel) name args s =
      (eval fuel body (s.alone bindings)).map fun (outcome, t) =>
        (outcome.settle, { t with scopes := s.scopes, callDepth := s.callDepth })) ∧
    (∀ frames : Scopes, 0 < frames.depth →
      Eval.invoke (eval fuel) name args { s with scopes := frames } =
        (Eval.invoke (eval fuel) name args s).map fun (outcome, t) =>
          (outcome, { t with scopes := frames })) := by
  have hcall := Eval.invoke_eq_alone fuel hframe hfunction hbinds hlimit
  refine ⟨hcall, fun frames hframes => ?_⟩
  have hother :
      Eval.invoke (eval fuel) name args { s with scopes := frames } =
        (eval fuel body (s.alone bindings)).map fun (outcome, t) =>
          (outcome.settle, { s with scopes := frames }.returnedTo t) :=
    Eval.invoke_eq_alone fuel hframes hfunction hbinds hlimit
  rw [hother, hcall, Option.map_map]
  rfl

end Sessions

/-- A body that binds a name which is bound where it is called, and returns from a frame. -/
def Node.assigningBody : Node :=
  .branch (.localVar "x" none)
    (.block [.setLocal "y" (.literal (.string "callee")), .ret (.localVar "y" none)])
    none

/-- A caller with two frames, one of which binds the name. -/
def Session.assignedTo : Session Unit :=
  ((Session.quiet.define "f" (.user (.fixed ["x"]) Node.assigningBody)).setLocal "y"
    (.string "caller")).enterScope

theorem call_refines_body_alone_of_assigningBody :
    0 < Session.assignedTo.scopes.depth ∧
    ∃ t, eval 5 Node.assigningBody (Session.assignedTo.alone [("x", .boolean true)]) =
        some (.returned (.string "callee"), t) ∧
      Eval.invoke (eval 5) "f" [.boolean true] Session.assignedTo =
        some (.value (.string "callee"),
          { t with scopes := Session.assignedTo.scopes, callDepth := 0 }) := by
  refine ⟨by decide, _, rfl, ?_⟩
  rw [(call_refines_body_alone 5 (by decide) rfl (.fixed rfl) (by decide)).1]
  rfl

end DocScript
