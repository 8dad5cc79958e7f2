import DocScript.Proofs.CallIsolation
import DocScript.Proofs.Finishing

/-!
# A `return` unwinds

A `return` leaves every construct around it: nothing else of the construct is
evaluated, and the only thing left to do is to close the frames that were opened on
the way in.

`Starts` lists the positions in which a construct evaluates a part, each with what
has been evaluated before the part is reached: earlier items of a list, a condition,
any number of completed rounds of a loop. `Reaches` nests positions to any depth and
counts the frames that are opened.

**Results.**
* `Starts.returns`: one construct passes a `return` of a part on.
* `return_unwinds`: so does any nesting of constructs, and a call that the nesting
  is the body of has the value that is returned.
-/

namespace DocScript

open Filter

variable {H : Type}

/--
Evaluating a tree in a session comes to evaluating a part of it in another one, with
so many frames opened for the part.
-/
inductive Starts : Node → Session H → Nat → Node → Session H → Prop
  | statement
      {before after : List Node} {node : Node} {vs : List Value} {s s₀ : Session H}
      (hbefore : Values before s vs s₀) :
      Starts (.block (before ++ node :: after)) s 0 node s₀
  | item
      {before after : List Node} {node : Node} {vs : List Value} {s s₀ : Session H}
      (hbefore : Values before s vs s₀) :
      Starts (.list (before ++ node :: after)) s 0 node s₀
  | operand
      {op : Operator} {before after : List Node} {node : Node} {vs : List Value}
      {s s₀ : Session H}
      (hbefore : Values before s vs s₀) :
      Starts (.operation op (before ++ node :: after)) s 0 node s₀
  | argument
      {name : String} {before after : List Node} {node : Node} {vs : List Value}
      {s s₀ : Session H}
      (hbefore : Values before s vs s₀) :
      Starts (.call name (before ++ node :: after)) s 0 node s₀
  | localValue {name : String} {node : Node} {s : Session H} :
      Starts (.localVar name (some node)) s 0 node s
  | setValue {name : String} {node : Node} {s : Session H} :
      Starts (.set name node) s 0 node s
  | setLocalValue {name : String} {node : Node} {s : Session H} :
      Starts (.setLocal name node) s 0 node s
  | returnValue {node : Node} {s : Session H} :
      Starts (.ret node) s 0 node s
  | ifCondition {node thenBranch : Node} {elseBranch : Option Node} {s : Session H} :
      Starts (.branch node thenBranch elseBranch) s 1 node s.enterScope
  | thenBranch
      {condition node : Node} {elseBranch : Option Node} {v : Value} {s s₀ : Session H}
      (hcondition : Finishes condition s.enterScope (.value v) s₀)
      (htruthy : v.truthy = true) :
      Starts (.branch condition node elseBranch) s 1 node s₀
  | elseBranch
      {condition thenBranch node : Node} {v : Value} {s s₀ : Session H}
      (hcondition : Finishes condition s.enterScope (.value v) s₀)
      (htruthy : v.truthy = false) :
      Starts (.branch condition thenBranch (some node)) s 1 node s₀
  | forInit {node condition step code : Node} {s : Session H} :
      Starts (.forLoop node condition step code) s 1 node s.enterScope
  | forCondition
      {init node step code : Node} {v : Value} {s s₁ s₀ : Session H}
      (hinit : Finishes init s.enterScope (.value v) s₁)
      (hrounds : Rounds node [code, step] s₁ s₀) :
      Starts (.forLoop init node step code) s 1 node s₀
  | forCode
      {init condition step node : Node} {v w : Value} {s s₁ s₂ s₀ : Session H}
      (hinit : Finishes init s.enterScope (.value v) s₁)
      (hrounds : Rounds condition [node, step] s₁ s₂)
      (hcondition : Finishes condition s₂ (.value w) s₀)
      (htruthy : w.truthy = true) :
      Starts (.forLoop init condition step node) s 1 node s₀
  | forStep
      {init condition node code : Node} {u v w : Value} {s s₁ s₂ s₃ s₀ : Session H}
      (hinit : Finishes init s.enterScope (.value v) s₁)
      (hrounds : Rounds condition [code, node] s₁ s₂)
      (hcondition : Finishes condition s₂ (.value w) s₃)
      (htruthy : w.truthy = true)
      (hcode : Finishes code s₃ (.value u) s₀) :
      Starts (.forLoop init condition node code) s 1 node s₀
  | whileCondition
      {node code : Node} {s s₀ : Session H}
      (hrounds : Rounds node [code] s.enterScope s₀) :
      Starts (.whileLoop node code) s 1 node s₀
  | whileCode
      {condition node : Node} {v : Value} {s s₁ s₀ : Session H}
      (hrounds : Rounds condition [node] s.enterScope s₁)
      (hcondition : Finishes condition s₁ (.value v) s₀)
      (htruthy : v.truthy = true) :
      Starts (.whileLoop condition node) s 1 node s₀
  | switchSubject {node : Node} {cases : List (String × Node)} {s : Session H} :
      Starts (.switch node cases) s 1 node s.enterScope
  | switchCase
      {subject node : Node} {cases : List (String × Node)} {v : Value} {s s₀ : Session H}
      (hsubject : Finishes subject s.enterScope (.value v) s₀)
      (hchosen : Eval.chooseCase v cases = some node) :
      Starts (.switch subject cases) s 1 node s₀

section Parts

variable {before after : List Node} {node test : Node} {v w : Value} {vs : List Value}
variable {s s₀ s₁ : Session H}

/-- A statement that returns ends the block, whatever comes after it. -/
theorem Values.eventually_block_returned
    (hbefore : Values before s vs s₀) (hreturn : Finishes node s₀ (.returned v) s₁)
    (last : Value) :
    ∀ᶠ fuel in atTop, Eval.block (eval fuel) last (before ++ node :: after) s =
      some (.returned v, s₁) := by
  filter_upwards [hbefore.eventually_block (node :: after) last, hreturn.eventually]
    with fuel hblock hreturn
  obtain ⟨last', hblock⟩ := hblock
  rw [hblock, Eval.block, hreturn, Run.andThen_returned]

/-- An operand that returns ends the construct, and nothing is done with the values before it. -/
theorem Values.eventually_all_returned
    (hbefore : Values before s vs s₀) (hreturn : Finishes node s₀ (.returned v) s₁)
    (next : Nat → List Value → Session H → Run H) :
    ∀ᶠ fuel in atTop, Eval.all (eval fuel) (next fuel) [] (before ++ node :: after) s =
      some (.returned v, s₁) := by
  filter_upwards [hbefore.eventually_all (node :: after) [] next, hreturn.eventually]
    with fuel hall hreturn
  rw [hall, Eval.all, hreturn, Run.andThen_returned]

theorem eventually_loop_test_returned
    (hreturn : Finishes test s (.returned v) s₁) (parts : List Node) :
    ∀ᶠ fuel in atTop, ∀ rounds,
      Eval.loop (eval fuel) test parts (rounds + 1) s = some (.returned v, s₁) := by
  filter_upwards [hreturn.eventually] with fuel hreturn rounds
  unfold Eval.loop
  rw [Eval.repeatWhile, hreturn, Run.andThen_returned]

/-- A part of the body that returns ends the loop in this round. -/
theorem eventually_loop_part_returned
    {s₂ : Session H}
    (htest : Finishes test s (.value w) s₂) (htruthy : w.truthy = true)
    (hbefore : Values before s₂ vs s₀) (hreturn : Finishes node s₀ (.returned v) s₁) :
    ∀ᶠ fuel in atTop, ∀ rounds,
      Eval.loop (eval fuel) test (before ++ node :: after) (rounds + 1) s =
        some (.returned v, s₁) := by
  filter_upwards [htest.eventually, hbefore.eventually_block_returned hreturn .null]
    with fuel htest hblock rounds
  unfold Eval.loop
  rw [Eval.repeatWhile, htest, Run.andThen_value, if_pos htruthy, hblock, Run.andThen_returned]

/-- A frame that was opened is closed, whatever its body comes to. -/
theorem eventually_inFrame
    {body : Nat → Session H → Run H} {outcome : Outcome}
    (hdepth : 1 < s₁.scopes.depth)
    (hbody : ∀ᶠ fuel in atTop, body fuel s.enterScope = some (outcome, s₁)) :
    ∀ᶠ fuel in atTop, Eval.inFrame (body fuel) s = some (outcome, s₁.closeScope) := by
  filter_upwards [hbody] with fuel hbody
  unfold Eval.inFrame
  rw [hbody]
  exact Eval.closeFrame_of_not_atRoot (Scopes.atRoot_eq_false _ hdepth) outcome

end Parts

namespace Starts

variable {node part : Node} {opened : Nat} {s s₀ s₁ : Session H} {v : Value}

/-- There are as many frames more as are opened on the way down. -/
theorem depth_eq (hframe : 0 < s.scopes.depth) (h : Starts node s opened part s₀) :
    s₀.scopes.depth = s.scopes.depth + opened := by
  have hopen : s.enterScope.scopes.depth = s.scopes.depth + 1 :=
    Scopes.depth_push s.scopes
  have hinner : 0 < s.enterScope.scopes.depth := by
    omega
  cases h with
  | statement hbefore | item hbefore | operand hbefore | argument hbefore =>
      exact hbefore.depth_eq hframe
  | localValue | setValue | setLocalValue | returnValue =>
      rfl
  | ifCondition | forInit | switchSubject =>
      exact hopen
  | thenBranch hcondition _ | elseBranch hcondition _ =>
      rw [hcondition.depth_eq hinner, hopen]
  | forCondition hinit hrounds =>
      have hdepth := hinit.depth_eq hinner
      rw [hrounds.depth_eq (by omega), hdepth, hopen]
  | forCode hinit hrounds hcondition _ =>
      have hdepth := hinit.depth_eq hinner
      have hdepth' := hrounds.depth_eq (by omega)
      rw [hcondition.depth_eq (by omega), hdepth', hdepth, hopen]
  | forStep hinit hrounds hcondition _ hcode =>
      have hdepth := hinit.depth_eq hinner
      have hdepth' := hrounds.depth_eq (by omega)
      have hdepth'' := hcondition.depth_eq (by omega)
      rw [hcode.depth_eq (by omega), hdepth'', hdepth', hdepth, hopen]
  | whileCondition hrounds =>
      rw [hrounds.depth_eq hinner, hopen]
  | whileCode hrounds hcondition _ =>
      have hdepth := hrounds.depth_eq hinner
      rw [hcondition.depth_eq (by omega), hdepth, hopen]
  | switchCase hsubject _ =>
      rw [hsubject.depth_eq hinner, hopen]

/-- A construct passes a `return` of a part on, and closes what it opened. -/
theorem returns
    (hframe : 0 < s.scopes.depth)
    (h : Starts node s opened part s₀)
    (hreturn : Finishes part s₀ (.returned v) s₁) :
    Finishes node s (.returned v) (Session.closeScope^[opened] s₁) := by
  -- Evaluation restores the number of frames, so what the construct opened is still on top.
  have hopened := h.depth_eq hframe
  have hdepth : s₁.scopes.depth = s.scopes.depth + opened := by
    rw [hreturn.depth_eq (by omega), hopened]
  apply Finishes.of_eventually_step
  cases h with
  | statement hbefore =>
      exact hbefore.eventually_block_returned hreturn .null
  | item hbefore =>
      exact hbefore.eventually_all_returned hreturn fun _ vs s => some (.value (.list vs), s)
  | @operand op _ _ _ _ _ _ hbefore =>
      exact hbefore.eventually_all_returned hreturn fun _ => Eval.combine op
  | @argument name _ _ _ _ _ _ hbefore =>
      exact hbefore.eventually_all_returned hreturn fun fuel => Eval.invoke (eval fuel) name
  | localValue | setValue | setLocalValue | returnValue =>
      filter_upwards [hreturn.eventually] with fuel hreturn
      simp only [Eval.step, hreturn, Run.andThen_returned]
      rfl
  | ifCondition | switchSubject | forInit =>
      simp only [Eval.step]
      apply eventually_inFrame (by omega)
      filter_upwards [hreturn.eventually] with fuel hreturn
      rw [hreturn, Run.andThen_returned]
  | thenBranch hcondition htruthy =>
      simp only [Eval.step]
      apply eventually_inFrame (by omega)
      filter_upwards [hcondition.eventually, hreturn.eventually] with fuel hcondition hreturn
      rw [hcondition, Run.andThen_value, if_pos htruthy, hreturn]
  | elseBranch hcondition htruthy =>
      simp only [Eval.step]
      apply eventually_inFrame (by omega)
      filter_upwards [hcondition.eventually, hreturn.eventually] with fuel hcondition hreturn
      rw [hcondition, Run.andThen_value, if_neg (by simp [htruthy]), hreturn]
  | @forCondition _ _ step code _ _ _ _ hinit hrounds =>
      simp only [Eval.step]
      apply eventually_inFrame (by omega)
      have hloop := hrounds.eventually_loop_eq (eventually_loop_test_returned hreturn _)
      filter_upwards [hinit.eventually, hloop] with fuel hinit hloop
      rw [hinit, Run.andThen_value, Eval.loop_pair, hloop]
  | forCode hinit hrounds hcondition htruthy =>
      simp only [Eval.step]
      apply eventually_inFrame (by omega)
      have hloop := hrounds.eventually_loop_eq
        (eventually_loop_part_returned hcondition htruthy .nil hreturn)
      filter_upwards [hinit.eventually, hloop] with fuel hinit hloop
      rw [hinit, Run.andThen_value, Eval.loop_pair, hloop]
  | forStep hinit hrounds hcondition htruthy hcode =>
      simp only [Eval.step]
      apply eventually_inFrame (by omega)
      have hloop := hrounds.eventually_loop_eq
        (eventually_loop_part_returned hcondition htruthy (.cons hcode .nil) hreturn)
      filter_upwards [hinit.eventually, hloop] with fuel hinit hloop
      rw [hinit, Run.andThen_value, Eval.loop_pair, hloop]
  | whileCondition hrounds =>
      simp only [Eval.step, Eval.loop_single]
      apply eventually_inFrame (by omega)
      exact hrounds.eventually_loop_eq (eventually_loop_test_returned hreturn _)
  | whileCode hrounds hcondition htruthy =>
      simp only [Eval.step, Eval.loop_single]
      apply eventually_inFrame (by omega)
      exact hrounds.eventually_loop_eq
        (eventually_loop_part_returned hcondition htruthy .nil hreturn)
  | switchCase hsubject hchosen =>
      simp only [Eval.step]
      apply eventually_inFrame (by omega)
      filter_upwards [hsubject.eventually, hreturn.eventually] with fuel hsubject hreturn
      rw [hsubject, Run.andThen_value, hchosen]
      exact hreturn

end Starts

/-- Positions nested to any depth, and the frames that are opened for them together. -/
inductive Reaches : Node → Session H → Nat → Node → Session H → Prop
  | here {node : Node} {s : Session H} : Reaches node s 0 node s
  | inside
      {node middle inner : Node} {opened frames : Nat} {s s₁ s₀ : Session H}
      (hstart : Starts node s opened middle s₁)
      (hreach : Reaches middle s₁ frames inner s₀) :
      Reaches node s (frames + opened) inner s₀

namespace Reaches

variable {node part : Node} {frames : Nat} {s s₀ s₁ : Session H} {v : Value}

theorem returns
    (hframe : 0 < s.scopes.depth)
    (h : Reaches node s frames part s₀)
    (hreturn : Finishes part s₀ (.returned v) s₁) :
    Finishes node s (.returned v) (Session.closeScope^[frames] s₁) := by
  induction h with
  | here =>
      exact hreturn
  | @inside node middle inner opened frames s s₂ s₀ hstart _ ih =>
      have hdepth := hstart.depth_eq hframe
      have hmiddle := ih (by omega) hreturn
      rw [Nat.add_comm, Function.iterate_add_apply]
      exact hstart.returns hframe hmiddle

end Reaches

/-- A call whose body returns has the value, and its frame is closed with those of the body. -/
theorem finishes_call_of_returned
    {name : String} {args : List Node} {vs : List Value} {params : Params} {body : Node}
    {bindings : List (String × Value)} {caller s s₁ : Session H} {v : Value}
    (hframe : 0 < s.scopes.depth)
    (hargs : Values args caller vs s)
    (hfunction : s.functions.get? name = some (.user params body))
    (hbinds : params.Binds vs bindings)
    (hlimit : s.callDepth < s.maxCallDepth)
    (hbody : Finishes body (s.called bindings) (.returned v) s₁) :
    Finishes (.call name args) caller (.value v) s₁.exitCall.closeScope := by
  have hopen : (s.called bindings).scopes.depth = s.scopes.depth + 1 := by
    rw [Session.called_eq]
    exact Scopes.depth_pushFrame s.scopes _
  have hdepth := hbody.depth_eq (by omega)
  have hroot : s₁.exitCall.scopes.atRoot = false :=
    Scopes.atRoot_eq_false s₁.scopes (by omega)
  have hall := hargs.eventually_all [] [] fun fuel => Eval.invoke (eval fuel) name
  rw [List.append_nil] at hall
  apply Finishes.of_eventually_step
  filter_upwards [hall, hbody.eventually] with fuel hall hbody
  rw [Eval.step, hall, Eval.all, List.append_nil, List.reverse_reverse,
    Eval.invoke_user (eval fuel) hfunction hbinds hlimit, Eval.callBody, hbody]
  exact Eval.closeFrame_of_not_atRoot hroot (.value v)

/--
A `return` reached in any nesting of positions is what the whole nesting comes to,
with the same value, in the session that the `return` left but for the frames that
the nesting had opened, which are closed. Where the nesting is the body of a user
function, the call has the value. A session always has a frame: it starts with one,
and the only frame is never closed.
-/
theorem return_unwinds
    {node part : Node} {frames : Nat} {s s₀ s₁ : Session H} {v : Value}
    (hframe : 0 < s.scopes.depth)
    (hreach : Reaches node s frames part s₀)
    (hreturn : Finishes part s₀ (.returned v) s₁) :
    Finishes node s (.returned v) (Session.closeScope^[frames] s₁) ∧
    ∀ name args vs params bindings (caller entered : Session H),
      0 < entered.scopes.depth →
      Values args caller vs entered →
      entered.functions.get? name = some (.user params node) →
      params.Binds vs bindings →
      entered.callDepth < entered.maxCallDepth →
      s = entered.called bindings →
      Finishes (.call name args) caller (.value v)
        (Session.closeScope^[frames] s₁).exitCall.closeScope := by
  have hnode := hreach.returns hframe hreturn
  refine ⟨hnode, ?_⟩
  intro name args vs params bindings caller entered hentered hargs hfunction hbinds hlimit hbody
  rw [hbody] at hnode
  exact finishes_call_of_returned hentered hargs hfunction hbinds hlimit hnode

/-- A loop that returns in its second round, from a frame inside the round. -/
def Node.secondRound : Node :=
  .whileLoop (.literal (.boolean true))
    (.block
      [.branch (.var "stop") (.ret (.literal (.string "done"))) none,
        .set "stop" (.literal (.boolean true))])

/-- A session in which the loop is the body of a function. -/
def Session.looping : Session Unit :=
  (Session.quiet.setGlobal "stop" (.boolean false)).define "f" (.user (.fixed []) Node.secondRound)

theorem return_unwinds_secondRound :
    ∃ s₀,
      Reaches Node.secondRound (Session.looping.called []) 2
        (.ret (.literal (.string "done"))) s₀ ∧
      Finishes (.ret (.literal (.string "done"))) s₀ (.returned (.string "done")) s₀ ∧
      Finishes Node.secondRound (Session.looping.called []) (.returned (.string "done"))
        (Session.closeScope^[2] s₀) ∧
      Finishes (.call "f" []) Session.looping (.value (.string "done"))
        (Session.closeScope^[2] s₀).exitCall.closeScope := by
  have hreach : Reaches Node.secondRound (Session.looping.called []) 2
      (.ret (.literal (.string "done"))) _ :=
    .inside (.whileCode (.more ⟨1, rfl⟩ rfl (.cons ⟨4, rfl⟩ .nil) .none) ⟨1, rfl⟩ rfl)
      (.inside (.statement .nil) (.inside (.thenBranch ⟨1, rfl⟩ rfl) .here))
  refine ⟨_, hreach, ⟨2, rfl⟩, ?_⟩
  obtain ⟨hnode, hcall⟩ := return_unwinds (by decide) hreach ⟨2, rfl⟩
  refine ⟨hnode, ?_⟩
  exact hcall "f" [] [] _ [] _ _ (by decide) .nil rfl (.fixed rfl) (by decide) rfl

end DocScript
