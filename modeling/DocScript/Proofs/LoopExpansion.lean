import DocScript.Proofs.AdjacentFrames
import DocScript.Proofs.Finishing

/-!
# A counting loop is a `while`

A `for` evaluates its first part, and then repeats its code and its step as long as its
condition holds. This can be written with a `while` after the first part, in a frame that an
`if` opens. The two come to the same, but they take a different number of frames: the `while`
opens one of its own, so that names made by the first part and names made by the rounds lie
in one frame for the `for`, and in two for the `while`.

The rounds take the same course in one frame and in two, as evaluation does not tell a frame
from the two that it is split in. When the frames are closed, the difference is gone with
them. The fuel that the rounds are given differs too, which is why each side is shown to
follow the other.

**Results.**
* `Simulation.counting_simulated`: rounds follow rounds that have as much fuel.
* `counting_followedBy_inFrame`, `inFrame_followedBy_counting`: rounds in one frame and in two.
* `forLoop_expands`: a `for` and the `while` it stands for come to the same.
-/

namespace DocScript

variable {H : Type}

/-- The `while` that a `for` stands for, after the first part and in a frame of their own. -/
def Node.whileForm (init condition step code : Node) : Node :=
  .branch (.literal (.boolean true))
    (.block [init, .whileLoop condition (.block [code, step])])
    none

/-- Sessions that are the same once the current frame of each is closed. -/
structure Session.ClosesAlike (s t : Session H) : Prop where
  not_atRoot : s.scopes.atRoot = false
  not_atRoot' : t.scopes.atRoot = false
  closeScope_eq : s.closeScope = t.closeScope

/-- What the first run comes to, the second comes to, in a session that closes alike. -/
abbrev Run.FollowedBy (run run' : Run H) : Prop :=
  Run.SimulatedBy (fun _ => False) Session.ClosesAlike run run'

/-- The difference between sessions that close alike is gone when a frame is closed. -/
theorem Run.FollowedBy.inFrame_eq_some
    {body body' : Session H → Run H} {s s' : Session H} {outcome : Outcome}
    (h : Run.FollowedBy (body s.enterScope) (body' s.enterScope))
    (hrun : Eval.inFrame body s = some (outcome, s')) :
    Eval.inFrame body' s = some (outcome, s') := by
  unfold Eval.inFrame at hrun ⊢
  generalize body s.enterScope = run at h hrun
  generalize body' s.enterScope = run' at h ⊢
  cases h with
  | unfinished =>
      cases hrun
  | waived hfault _ =>
      exact hfault.elim
  | finished hst =>
      simp only at hrun ⊢
      rw [Eval.closeFrame_of_not_atRoot hst.not_atRoot, hst.closeScope_eq] at hrun
      rw [Eval.closeFrame_of_not_atRoot hst.not_atRoot', hrun]

section Splitting

variable {calls : Nat} {s t : Session H} {run : Run H} {body : Session H → Run H}

/-- A session in which the current frame is split closes one frame more. -/
theorem FrameSimulation.InStep.closesAlike
    (h : FrameSimulation.splitting.InStep (0 : Nat) calls s t) :
    t.scopes.atRoot = false ∧ s.ClosesAlike t.closeScope := by
  obtain ⟨_, frames, hsplit, rfl⟩ := h
  obtain ⟨ha, hb, hb', hpop⟩ := Scopes.Splits.pop_eq hsplit
  refine ⟨hb, ha, hb', ?_⟩
  simp only [Session.closeScope, hpop]

/-- A frame opened for the second run is closed, and with it the difference to the first. -/
theorem Run.SimulatedBy.followedBy_inFrame
    (h : Run.SimulatedBy (fun _ => False)
      (FrameSimulation.splitting.InStep (0 : Nat) calls) run (body s.enterScope)) :
    run.FollowedBy (Eval.inFrame body s) := by
  unfold Eval.inFrame
  generalize body s.enterScope = run' at h ⊢
  cases h with
  | unfinished =>
      exact .unfinished
  | waived hfault _ =>
      exact hfault.elim
  | finished hst =>
      obtain ⟨hroot, halike⟩ := hst.closesAlike
      simp only [Eval.closeFrame_of_not_atRoot hroot]
      exact .finished halike

theorem Run.SimulatedBy.inFrame_followedBy
    (h : Run.SimulatedBy (fun _ => False)
      (FrameSimulation.splitting.flip.InStep (0 : Nat) calls) (body s.enterScope) run) :
    (Eval.inFrame body s).FollowedBy run := by
  unfold Eval.inFrame
  generalize body s.enterScope = run' at h ⊢
  cases h with
  | unfinished =>
      exact .unfinished
  | waived hfault _ =>
      exact hfault.elim
  | finished hst =>
      obtain ⟨hroot, halike⟩ := hst.flip.closesAlike
      simp only [Eval.closeFrame_of_not_atRoot hroot]
      exact .finished ⟨halike.not_atRoot', halike.not_atRoot, halike.closeScope_eq.symm⟩

end Splitting

section Rounds

variable (condition step code : Node)

/-- Rounds of a loop over code and a step, with fuel for the condition, the rest and the rounds. -/
def Eval.counting (fuel fuel' rounds : Nat) : Session H → Run H :=
  Eval.repeatWhile (eval fuel condition)
    (fun s => (eval fuel' code s).andThen fun _ s => eval fuel' step s) rounds

theorem Simulation.counting_simulated (S : Simulation H) {w : S.World} {s t : Session H}
    {fuel fuel' rounds gas gas' rounds' : Nat} (hfuel : fuel ≤ gas) (hfuel' : fuel' ≤ gas')
    (hrounds : rounds ≤ rounds') (h : S.Rel w s t) :
    Run.SimulatedBy S.Waived (S.Rel w) (Eval.counting condition step code fuel fuel' rounds s)
      (Eval.counting condition step code gas gas' rounds' t) := by
  refine repeatWhile_simulated (S.keeps_eval hfuel w condition) (fun s t hst => ?_) hrounds h
  exact (S.keeps_eval hfuel' w code s t hst).andThen fun _ s t hst =>
    S.keeps_eval hfuel' w step s t hst

variable {condition step code} {s : Session H} {fuel fuel' rounds gas gas' rounds' : Nat}

/-- Rounds in one frame are followed by rounds in a frame inside it. -/
theorem counting_followedBy_inFrame
    (hsplit : Scopes.Splits 0 s.scopes s.scopes.push)
    (hfuel : fuel ≤ gas) (hfuel' : fuel' ≤ gas') (hrounds : rounds ≤ rounds') :
    (Eval.counting condition step code fuel fuel' rounds s).FollowedBy
      (Eval.inFrame (Eval.counting condition step code gas gas' rounds') s) := by
  have hstart : FrameSimulation.splitting.InStep (0 : Nat) s.callDepth s s.enterScope :=
    ⟨rfl, _, hsplit, rfl⟩
  exact Run.SimulatedBy.followedBy_inFrame
    (FrameSimulation.splitting.toSimulation.counting_simulated condition step code hfuel hfuel'
      hrounds (w := ((0 : Nat), s.callDepth)) hstart)

theorem inFrame_followedBy_counting
    (hsplit : Scopes.Splits 0 s.scopes s.scopes.push)
    (hfuel : fuel ≤ gas) (hfuel' : fuel' ≤ gas') (hrounds : rounds ≤ rounds') :
    (Eval.inFrame (Eval.counting condition step code fuel fuel' rounds) s).FollowedBy
      (Eval.counting condition step code gas gas' rounds' s) := by
  have hstart : FrameSimulation.splitting.InStep (0 : Nat) s.callDepth s s.enterScope :=
    ⟨rfl, _, hsplit, rfl⟩
  exact Run.SimulatedBy.inFrame_followedBy
    (FrameSimulation.splitting.flip.toSimulation.counting_simulated condition step code hfuel hfuel'
      hrounds (w := ((0 : Nat), s.callDepth)) hstart.flip)

end Rounds

section Expansion

variable {init condition step code : Node} {s : Session H} {fuel fuel' : Nat}

/--
After the first part, which is evaluated in a frame just opened, the rest is looked at in
sessions with frames of the same shape only.
-/
theorem eval_andThen_followedBy
    {next next' : Session H → Run H}
    (hformed : s.scopes.WellFormed) (hfuel : fuel ≤ fuel')
    (hnext : ∀ s₁ : Session H, s₁.scopes.SameShape s.scopes.push →
      (next s₁).FollowedBy (next' s₁)) :
    ((eval fuel init s.enterScope).andThen fun _ s => next s).FollowedBy
      ((eval fuel' init s.enterScope).andThen fun _ s => next' s) := by
  cases hinit : eval fuel init s.enterScope with
  | none =>
      exact .unfinished
  | some finished =>
      obtain ⟨outcome, s₁⟩ := finished
      have hshape : s₁.scopes.SameShape s.scopes.push :=
        (eval_restores (by simp [Session.enterScope]) fuel init outcome s₁ hinit).frames
      have hroot : s₁.scopes.atRoot = false := by
        have hdepth := hshape.depth
        have hpos := hformed.nonempty
        rw [Scopes.depth_push] at hdepth
        exact Scopes.atRoot_eq_false _ (by omega)
      rw [eval_mono hfuel hinit]
      cases outcome with
      | value v =>
          exact hnext s₁ hshape
      -- Where the first part ends the loop, no second frame has been opened.
      | returned v | failed fault =>
          exact .finished ⟨hroot, hroot, rfl⟩

theorem eval_forLoop (fuel : Nat) (s : Session H) :
    eval (fuel + 1) (.forLoop init condition step code) s =
      Eval.inFrame
        (fun s => (eval fuel init s).andThen fun _ s =>
          Eval.counting condition step code fuel fuel fuel s) s := rfl

theorem eval_block_pair (fuel : Nat) (first second : Node) (s : Session H) :
    eval (fuel + 1) (.block [first, second]) s =
      (eval fuel first s).andThen fun _ s => eval fuel second s := by
  rw [eval, Eval.step]
  simp only [Eval.block, Run.andThen_some_value]

theorem eval_whileLoop_pair (fuel : Nat) (s : Session H) :
    eval (fuel + 2) (.whileLoop condition (.block [code, step])) s =
      Eval.inFrame (Eval.counting condition step code (fuel + 1) fuel (fuel + 1)) s := by
  have hround : eval (fuel + 1) (.block [code, step]) =
      fun s : Session H => (eval fuel code s).andThen fun _ s => eval fuel step s := by
    funext s
    exact eval_block_pair fuel code step s
  rw [eval, Eval.step, hround]
  rfl

theorem eval_whileForm (fuel : Nat) (s : Session H) :
    eval (fuel + 4) (Node.whileForm init condition step code) s =
      Eval.inFrame
        (fun s => (eval (fuel + 2) init s).andThen fun _ s =>
          Eval.inFrame (Eval.counting condition step code (fuel + 1) fuel (fuel + 1)) s) s := by
  have hbranch : eval (fuel + 4) (Node.whileForm init condition step code) s =
      Eval.inFrame (eval (fuel + 3)
        (.block [init, .whileLoop condition (.block [code, step])])) s := rfl
  rw [hbranch]
  simp only [Eval.inFrame, eval_block_pair, eval_whileLoop_pair]

/-- What a `for` comes to, the `while` it stands for comes to. -/
theorem Finishes.whileForm_of_forLoop {outcome : Outcome} {s' : Session H}
    (hformed : s.scopes.WellFormed)
    (h : Finishes (.forLoop init condition step code) s outcome s') :
    Finishes (Node.whileForm init condition step code) s outcome s' := by
  obtain ⟨fuel, heval⟩ := h
  replace heval := eval_mono (Nat.le_succ fuel) heval
  rw [eval_forLoop] at heval
  refine ⟨fuel + 4, ?_⟩
  rw [eval_whileForm]
  refine Run.FollowedBy.inFrame_eq_some ?_ heval
  refine eval_andThen_followedBy hformed (by omega) fun s₁ hshape => ?_
  exact counting_followedBy_inFrame (hshape.splits_push hformed) (by omega) (by omega) (by omega)

/-- What the `while` comes to, the `for` comes to. -/
theorem Finishes.forLoop_of_whileForm {outcome : Outcome} {s' : Session H}
    (hformed : s.scopes.WellFormed)
    (h : Finishes (Node.whileForm init condition step code) s outcome s') :
    Finishes (.forLoop init condition step code) s outcome s' := by
  obtain ⟨fuel, heval⟩ := h
  -- The parts of a round are four steps into the tree, so fuel is added for these.
  replace heval := eval_mono (Nat.le_add_right fuel 4) heval
  rw [eval_whileForm] at heval
  refine ⟨fuel + 3, ?_⟩
  rw [eval_forLoop]
  refine Run.FollowedBy.inFrame_eq_some ?_ heval
  refine eval_andThen_followedBy hformed (by omega) fun s₁ hshape => ?_
  exact inFrame_followedBy_counting (hshape.splits_push hformed) (by omega) (by omega) (by omega)

end Expansion

section LoopValue

variable {init condition step code : Node} {s : Session H}

/-- The only value that a run may have is null. -/
def Run.NoOtherValue (run : Run H) : Prop :=
  ∀ v s', run = some (.value v, s') → v = .null

theorem Run.NoOtherValue.andThen {run : Run H} {next : Value → Session H → Run H}
    (h : ∀ v s, (next v s).NoOtherValue) : (run.andThen next).NoOtherValue := by
  intro v s' hrun
  rcases run with _ | ⟨outcome, s⟩
  · cases hrun
  · cases outcome with
    | value w =>
        exact h w s v s' hrun
    | returned w | failed fault =>
        cases hrun

theorem Eval.repeatWhile_noOtherValue (test body : Session H → Run H) (rounds : Nat)
    (s : Session H) : (Eval.repeatWhile test body rounds s).NoOtherValue := by
  induction rounds generalizing s with
  | zero =>
      intro v s' hrun
      cases hrun
  | succ rounds ih =>
      refine Run.NoOtherValue.andThen fun v s => ?_
      split
      · exact Run.NoOtherValue.andThen fun _ s => ih s
      · intro w s' hrun
        cases hrun
        rfl

theorem Eval.inFrame_noOtherValue {body : Session H → Run H}
    (h : ∀ s, (body s).NoOtherValue) (s : Session H) : (Eval.inFrame body s).NoOtherValue := by
  intro v s' hrun
  unfold Eval.inFrame at hrun
  split at hrun
  · cases hrun
  · rename_i outcome s₁ hbody
    unfold Eval.closeFrame at hrun
    split at hrun
    · cases hrun
    · cases hrun
      exact h _ v s₁ hbody

/-- A `for` that is not left by a `return` or a fault has no value. -/
theorem Finishes.forLoop_value_eq {v : Value} {s' : Session H}
    (h : Finishes (.forLoop init condition step code) s (.value v) s') : v = .null := by
  obtain ⟨fuel, heval⟩ := h
  replace heval := eval_mono (Nat.le_succ fuel) heval
  rw [eval_forLoop] at heval
  refine Eval.inFrame_noOtherValue (fun s => ?_) s v s' heval
  exact Run.NoOtherValue.andThen fun _ s => Eval.repeatWhile_noOtherValue _ _ _ s

end LoopValue

/--
A `for` is the `while` that it stands for. In a session with well-formed frames, one finishes
if and only if the other does, with the same outcome and in the same session; and where
neither a `return` nor a fault ends the loop, the outcome is null.
-/
theorem forLoop_expands
    (init condition step code : Node) {s : Session H} (hformed : s.scopes.WellFormed) :
    (∀ outcome s', Finishes (.forLoop init condition step code) s outcome s' ↔
      Finishes (Node.whileForm init condition step code) s outcome s') ∧
    ∀ v s', Finishes (.forLoop init condition step code) s (.value v) s' → v = .null :=
  ⟨fun _ _ => ⟨Finishes.whileForm_of_forLoop hformed, Finishes.forLoop_of_whileForm hformed⟩,
    fun _ _ => Finishes.forLoop_value_eq⟩

/-- The code of a loop, which makes a name beside the one that the loop was started with. -/
def Node.copyingRound : Node :=
  .block [.setLocal "seen" (.localVar "going" none), .set "x" (.localVar "seen" none)]

/-- After one round, nothing is left of the names that the first part and the round made. -/
theorem forLoop_expands_copyingRound :
    Session.quiet.scopes.WellFormed ∧
    ∃ s', s'.globals = ⟨[("x", .boolean true)]⟩ ∧ s'.scopes = .root ∧
      Finishes
        (Node.whileForm (.setLocal "going" (.literal (.boolean true))) (.localVar "going" none)
          (.setLocal "going" (.literal (.boolean false))) Node.copyingRound)
        Session.quiet (.value .null) s' := by
  have hfor : Finishes
      (.forLoop (.setLocal "going" (.literal (.boolean true))) (.localVar "going" none)
        (.setLocal "going" (.literal (.boolean false))) Node.copyingRound)
      Session.quiet (.value .null) _ := ⟨6, rfl⟩
  exact ⟨Scopes.wellFormed_root, _, rfl, rfl,
    ((forLoop_expands _ _ _ _ Scopes.wellFormed_root).1 _ _).mp hfor⟩

end DocScript
