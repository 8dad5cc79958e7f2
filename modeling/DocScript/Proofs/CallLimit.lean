import DocScript.Proofs.Balance

/-!
# The limit on calls

A program notices the limit on calls only by being refused a call. The fault that it is
refused with ends the whole evaluation: no construct catches it. So an evaluation that
does not end with this fault has had all its calls granted, and comes to the same under
every higher limit.

The evaluation under the lower limit is simulated by the one under the higher limit, with
the fault of a refused call waived. Sessions are related while they have as many frames as
there are, since a fault passes through the closing of a frame only where one is left.

**Results.**
* `Simulation.relaxing`: constructs do the same under a higher limit, or are refused a call.
* `call_limit_transparent`: an evaluation that is refused no call does not depend on the limit.
-/

namespace DocScript

variable {H : Type}

/-- The fault of a call that is refused for some limit. -/
def EvalFault.IsCallLimit (fault : EvalFault) : Prop :=
  ∃ limit, fault = .callLimit limit

/-- A session of so many frames, beside the same session with a limit that is not lower. -/
structure Session.Relaxed (limit depth : Nat) (s t : Session H) : Prop where
  depth_pos : 0 < depth
  depth_eq : s.scopes.depth = depth
  limit_le : s.maxCallDepth ≤ limit
  eq_limitCalls : t = s.limitCalls limit

/-- A frame that is closed on top of others is not the only one. -/
theorem Session.closesInto_relaxed
    (waived : EvalFault → Prop) (limit : Nat) {depth : Nat} (hdepth : 0 < depth) :
    Session.ClosesInto waived (Session.Relaxed limit (depth + 1) : Session H → Session H → Prop)
      (Session.Relaxed limit depth) := by
  rintro s _ ⟨_, hframes, hlimit, rfl⟩
  have hroot : s.scopes.atRoot = false := by
    apply Scopes.atRoot_eq_false
    omega
  refine ⟨rfl, fun hs => ?_, fun _ => ⟨hdepth, ?_, hlimit, rfl⟩⟩
  · rw [hroot] at hs
    cases hs
  · change s.scopes.pop.depth = depth
    rw [Scopes.depth_pop]
    omega

/-- Constructs do the same under a higher limit, unless they are refused a call. -/
def Simulation.relaxing (H : Type) (limit : Nat) : Simulation H where
  World := Nat
  Rel := Session.Relaxed limit
  Waived := EvalFault.IsCallLimit
  getGlobal := by
    rintro depth s _ ⟨_, _, _, rfl⟩ name
    rfl
  getLocal := by
    rintro depth s _ ⟨_, _, _, rfl⟩ name
    rfl
  getFunction := by
    rintro depth s _ ⟨_, _, _, rfl⟩ name
    rfl
  getProgram := by
    rintro depth s _ ⟨_, _, _, rfl⟩ name
    rfl
  loader := by
    rintro depth s _ ⟨_, _, _, rfl⟩
    rfl
  host := by
    rintro depth s _ ⟨_, _, _, rfl⟩
    exact ⟨rfl, rfl⟩
  calls := by
    rintro depth s _ ⟨_, _, hlimit, rfl⟩
    exact ⟨rfl, .inr ⟨hlimit, s.maxCallDepth, rfl⟩⟩
  setGlobal := by
    rintro depth s _ ⟨hdepth, hframes, hlimit, rfl⟩ name value
    exact ⟨hdepth, hframes, hlimit, rfl⟩
  setLocal := by
    rintro depth s _ ⟨hdepth, hframes, hlimit, rfl⟩ name value
    exact ⟨hdepth, (s.scopes.depth_assign name value).trans hframes, hlimit, rfl⟩
  setHost := by
    rintro depth s _ ⟨hdepth, hframes, hlimit, rfl⟩ host
    exact ⟨hdepth, hframes, hlimit, rfl⟩
  define := by
    rintro depth s _ ⟨hdepth, hframes, hlimit, rfl⟩ name params body
    exact ⟨hdepth, hframes, hlimit, rfl⟩
  addProgram := by
    rintro depth s _ ⟨hdepth, hframes, hlimit, rfl⟩ program
    exact ⟨hdepth, hframes, hlimit, rfl⟩
  enterScope := by
    rintro depth s _ ⟨hdepth, hframes, hlimit, rfl⟩
    refine ⟨depth + 1, ⟨Nat.succ_pos depth, ?_, hlimit, rfl⟩,
      Session.closesInto_relaxed _ limit hdepth⟩
    change s.scopes.push.depth = depth + 1
    rw [Scopes.depth_push, hframes]
  enterCall := by
    rintro depth s _ ⟨hdepth, hframes, hlimit, rfl⟩ bindings
    refine ⟨depth + 1, depth + 1, ?_, ?_, Session.closesInto_relaxed _ limit hdepth⟩
    · simp only [Session.called_eq]
      refine ⟨Nat.succ_pos depth, ?_, hlimit, rfl⟩
      change (s.scopes.pushBound bindings).depth = depth + 1
      rw [Scopes.pushBound, Scopes.depth_pushFrame, hframes]
    · rintro s _ ⟨hdepth, hframes, hlimit, rfl⟩
      exact ⟨hdepth, hframes, hlimit, rfl⟩

/--
The limit on calls is transparent: an evaluation that ends otherwise than with a call
refused for the limit ends in the same way under every higher limit, and leaves the same
session behind, but for the limit.
-/
theorem call_limit_transparent
    {s s' : Session H} (hframe : 0 < s.scopes.depth)
    {limit limit' : Nat} (hlimit : limit ≤ limit')
    {fuel : Nat} {node : Node} {outcome : Outcome}
    (heval : eval fuel node (s.limitCalls limit) = some (outcome, s'))
    (houtcome : ∀ m, outcome ≠ .failed (.callLimit m)) :
    eval fuel node (s.limitCalls limit') = some (outcome, s'.limitCalls limit') := by
  have hstart : (s.limitCalls limit).Relaxed limit' s.scopes.depth (s.limitCalls limit') :=
    ⟨hframe, rfl, hlimit, rfl⟩
  have hsimulated :=
    (Simulation.relaxing H limit').keeps_eval (Nat.le_refl fuel) s.scopes.depth node _ _ hstart
  have hgranted : ∀ fault, outcome = .failed fault → ¬ fault.IsCallLimit := by
    rintro _ hfailed ⟨m, rfl⟩
    exact houtcome m hfailed
  obtain ⟨t, heval', hrelaxed⟩ := hsimulated.exists_of_not_waived heval hgranted
  rw [heval', hrelaxed.eq_limitCalls]

/-- A session with two functions, of which one calls the other to set a variable. -/
def Session.nestedCalls : Session Unit :=
  (Session.quiet.define "outer" (.user (.fixed []) (.call "inner" []))).define "inner"
    (.user (.fixed []) (.set "done" (.literal (.boolean true))))

theorem call_limit_transparent_nestedCalls :
    (∃ s, eval 5 (.call "outer" []) (Session.nestedCalls.limitCalls 1) =
      some (.failed (.callLimit 1), s)) ∧
    ∃ s', eval 5 (.call "outer" []) (Session.nestedCalls.limitCalls 2) =
        some (.value (.boolean true), s') ∧
      s'.getGlobal "done" = .ok (.boolean true) ∧
      eval 5 (.call "outer" []) (Session.nestedCalls.limitCalls 1000) =
        some (.value (.boolean true), s'.limitCalls 1000) := by
  have hlimit : 2 ≤ 1000 := by decide
  exact ⟨⟨_, rfl⟩, _, rfl, rfl,
    call_limit_transparent (by decide) hlimit rfl fun _ heq => nomatch heq⟩

end DocScript
