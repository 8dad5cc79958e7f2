import DocScript.Proofs.Balance
import DocScript.Proofs.Tables

/-!
# What evaluation does to local names

A write goes to the nearest visible frame that binds the name, so no inner binding ever
hides an outer one, and a frame that a construct opens takes its new names with it when it
is closed. Hence evaluation, however it ends, leaves frames that are not visible alone,
changes no more than the values of what is bound in the visible frames around the current
one, and adds to the current frame only names that no visible frame had.

`Scopes.Writes` is this discipline as a relation between the frames before and after. Writes
made one after the other are one write, and a frame that is opened and closed again in
between is a write that adds no name. Evaluation is a simulation of a session by itself, in
which the world holds the frames that a construct started from.

**Results.**
* `Scopes.Writes.assign`, `Scopes.Writes.trans`: what one write does, and what several do.
* `Scopes.Writes.binds_pop_push`: a frame that is opened and closed leaves no name behind.
* `FrameSimulation.writing`: constructs keep the discipline.
* `locals_neither_shadowed_nor_leaked`: so does evaluation.
-/

namespace DocScript
namespace Scopes

/-- Whether the frame at an index binds a name. -/
def Binds (scopes : Scopes) (index : Nat) (name : String) : Prop :=
  (scopes.frame index).bindings.contains name = true

instance (scopes : Scopes) (index : Nat) (name : String) :
    Decidable (scopes.Binds index name) :=
  inferInstanceAs (Decidable (_ = true))

/-- To bind a name in a frame adds that name to that frame. -/
theorem binds_bindAt_iff
    (scopes : Scopes) {target : Nat} (htarget : target < scopes.depth)
    (name : String) (value : Value) (index : Nat) (other : String) :
    (scopes.bindAt target name value).Binds index other ↔
      (index = target ∧ other = name) ∨ scopes.Binds index other := by
  unfold Binds
  rw [frame_bindAt]
  by_cases heq : index = target
  · subst heq
    rw [if_pos ⟨rfl, htarget⟩, Table.contains_insert_iff]
    simp
  · rw [if_neg fun h => heq h.1]
    simp [heq]

theorem owner?_eq_some
    {scopes : Scopes} {name : String} {index : Nat} (h : scopes.owner? name = some index) :
    index ∈ scopes.chain ∧ scopes.Binds index name := by
  unfold owner? at h
  have hbinds := List.find?_some h
  exact ⟨List.mem_of_find?_eq_some h, hbinds⟩

theorem owner?_eq_none
    {scopes : Scopes} {name : String} (h : scopes.owner? name = none) :
    ∀ index ∈ scopes.chain, ¬ scopes.Binds index name :=
  fun index hmem => List.find?_eq_none.mp h index hmem

/-- The chain starts at the current frame. -/
theorem exists_chain_eq_cons {scopes : Scopes} (h : scopes.WellFormed) :
    ∃ outer, scopes.chain = scopes.current :: outer := by
  obtain ⟨bound, hdepth⟩ : ∃ n, scopes.depth = n + 1 := ⟨scopes.depth - 1, by
    have hpos := h.nonempty
    omega⟩
  rw [chain, hdepth, chainFrom]
  exact ⟨_, rfl⟩

theorem current_mem_chain {scopes : Scopes} (h : scopes.WellFormed) :
    scopes.current ∈ scopes.chain := by
  obtain ⟨outer, hchain⟩ := exists_chain_eq_cons h
  rw [hchain]
  exact List.mem_cons_self

namespace SameShape

variable {a b c : Scopes}

theorem trans (h : b.SameShape a) (h' : c.SameShape b) : c.SameShape a :=
  ⟨h'.depth.trans h.depth, fun index => (h'.parent index).trans (h.parent index)⟩

theorem wellFormed (h : b.SameShape a) (ha : a.WellFormed) : b.WellFormed := by
  refine ⟨h.depth ▸ ha.nonempty, fun index parent hlink => ?_⟩
  rw [h.parent] at hlink
  exact ha.parent_lt index parent hlink

/-- The same frames are visible. -/
theorem chain_eq (h : b.SameShape a) (ha : a.WellFormed) : b.chain = a.chain := by
  have hlt := ha.current_lt
  unfold chain
  rw [h.current, h.depth]
  exact chainFrom_congr ha (fun index _ => h.parent index) hlt hlt

end SameShape

/--
The discipline of writes: frames that are not visible stay as they are, visible frames
around the current one bind the same names, and the current one gains only names that no
visible frame bound.
-/
structure Writes (before after : Scopes) : Prop where
  shape : after.SameShape before
  hidden : ∀ index, index ∉ before.chain → after.frame index = before.frame index
  outer : ∀ index ∈ before.chain, index ≠ before.current →
    ∀ name, after.Binds index name ↔ before.Binds index name
  kept : ∀ name, before.Binds before.current name → after.Binds before.current name
  fresh : ∀ name, after.Binds before.current name → ¬ before.Binds before.current name →
    ∀ index ∈ before.chain, ¬ before.Binds index name

namespace Writes

variable {a b c : Scopes}

/-- Where every frame binds what it bound before, only values have been written. -/
theorem of_binds_iff
    (hshape : b.SameShape a)
    (hhidden : ∀ index, index ∉ a.chain → b.frame index = a.frame index)
    (hbinds : ∀ index name, b.Binds index name ↔ a.Binds index name) :
    a.Writes b where
  shape := hshape
  hidden := hhidden
  outer := fun index _ _ => hbinds index
  kept := fun name => (hbinds a.current name).mpr
  fresh := fun name hafter hbefore => absurd ((hbinds a.current name).mp hafter) hbefore

theorem refl (a : Scopes) : a.Writes a :=
  .of_binds_iff (.refl a) (fun _ _ => rfl) fun _ _ => .rfl

theorem trans (ha : a.WellFormed) (h : a.Writes b) (h' : b.Writes c) : a.Writes c := by
  have hchain := h.shape.chain_eq ha
  have hcurrent := h.shape.current
  refine ⟨h.shape.trans h'.shape, ?_, ?_, ?_, ?_⟩
  · intro index hindex
    rw [h'.hidden index (hchain ▸ hindex), h.hidden index hindex]
  · intro index hindex hother name
    exact (h'.outer index (hchain ▸ hindex) (hcurrent ▸ hother) name).trans
      (h.outer index hindex hother name)
  · intro name hname
    exact hcurrent ▸ h'.kept name (hcurrent ▸ h.kept name hname)
  · intro name hafter hbefore index hindex
    by_cases hbetween : b.Binds a.current name
    · exact h.fresh name hbetween hbefore index hindex
    · by_cases hother : index = a.current
      · exact hother ▸ hbefore
      · -- The name came with the later writes, so no frame bound it in between.
        have hfree := h'.fresh name (hcurrent ▸ hafter) (hcurrent ▸ hbetween) index
          (hchain ▸ hindex)
        exact fun hbound => hfree ((h.outer index hindex hother name).mpr hbound)

/-- A write goes to the nearest frame that binds the name, or adds it to the current one. -/
theorem assign (ha : a.WellFormed) (name : String) (value : Value) :
    a.Writes (a.assign name value) := by
  have hshape := (SameShape.refl a).assign name value
  unfold Scopes.assign at hshape ⊢
  cases howner : a.owner? name with
  | some target =>
      -- The name is bound already, so that only its value changes.
      rw [howner] at hshape
      obtain ⟨hmem, hbound⟩ := owner?_eq_some howner
      have hlt := lt_of_mem_chain ha hmem
      refine .of_binds_iff hshape ?_ fun index other => ?_
      · intro index hindex
        rw [Option.getD_some, frame_bindAt, if_neg]
        rintro ⟨rfl, _⟩
        exact hindex hmem
      · rw [Option.getD_some, binds_bindAt_iff a hlt]
        refine ⟨?_, .inr⟩
        rintro (⟨rfl, rfl⟩ | hbinds)
        · exact hbound
        · exact hbinds
  | none =>
      rw [howner] at hshape
      have hfree := owner?_eq_none howner
      have hbinds := a.binds_bindAt_iff ha.current_lt name value
      refine ⟨hshape, ?_, ?_, ?_, ?_⟩
      · intro index hindex
        rw [Option.getD_none, frame_bindAt, if_neg]
        rintro ⟨rfl, _⟩
        exact hindex (current_mem_chain ha)
      · intro index _ hother other
        rw [Option.getD_none, hbinds]
        simp [hother]
      · intro other hother
        exact (hbinds a.current other).mpr (.inr hother)
      · intro other hafter hbefore
        rcases (hbinds a.current other).mp hafter with ⟨_, rfl⟩ | hbound
        · exact hfree
        · exact absurd hbound hbefore

section Closing

variable {frame : Frame}

theorem sameShape_pop (h : (a.pushFrame frame).Writes c) : c.pop.SameShape a := by
  have hshape := h.shape.pop
  rw [pop_pushFrame] at hshape
  exact hshape

/-- A frame that was not visible from one that is closed is as it was. -/
theorem frame_pop_of_hidden
    (h : (a.pushFrame frame).Writes c) {index : Nat}
    (hhidden : index < a.depth → index ∉ (a.pushFrame frame).chain) :
    c.pop.frame index = a.frame index := by
  by_cases hlt : index < a.depth
  · have hdepth := h.shape.depth
    rw [depth_pushFrame] at hdepth
    rw [frame_pop, if_pos (by omega), h.hidden index (hhidden hlt), frame_pushFrame,
      if_neg (by omega)]
  · have hdepth := h.sameShape_pop.depth
    rw [frame_of_depth_le _ (by omega), frame_of_depth_le _ (by omega)]

/-- A frame of a call that is closed leaves all frames as they were. -/
theorem pop_pushBound_eq
    {bindings : List (String × Value)} (h : (a.pushBound bindings).Writes c) : c.pop = a := by
  refine ext_frame h.sameShape_pop.depth fun index => ?_
  refine frame_pop_of_hidden h fun hlt hmem => ?_
  rw [chain_pushFrame_of_none a rfl, List.mem_singleton] at hmem
  omega

theorem frame_pop_push
    (ha : a.WellFormed) (h : a.push.Writes c) {index : Nat} (hindex : index ∉ a.chain) :
    c.pop.frame index = a.frame index := by
  refine frame_pop_of_hidden h fun hlt hmem => ?_
  rw [chain_pushFrame_of_some ha rfl, List.mem_cons] at hmem
  rcases hmem with rfl | hmem
  · omega
  · exact hindex hmem

/-- A frame inside the current one that is closed leaves no name behind. -/
theorem binds_pop_push
    (ha : a.WellFormed) (h : a.push.Writes c) (index : Nat) (name : String) :
    c.pop.Binds index name ↔ a.Binds index name := by
  by_cases hindex : index ∈ a.chain
  · have hlt := lt_of_mem_chain ha hindex
    have hdepth := h.shape.depth
    rw [depth_push] at hdepth
    have hvisible : index ∈ a.push.chain := by
      rw [push_eq_pushFrame, chain_pushFrame_of_some ha rfl]
      exact List.mem_cons_of_mem _ hindex
    have hother : index ≠ a.push.current := by
      rw [push_eq_pushFrame, current_pushFrame]
      omega
    have hbinds := h.outer index hvisible hother name
    unfold Binds at hbinds ⊢
    rw [push_eq_pushFrame, frame_pushFrame, if_neg (by omega)] at hbinds
    rw [frame_pop, if_pos (by omega)]
    exact hbinds
  · unfold Binds
    rw [frame_pop_push ha h hindex]

theorem pop_push (ha : a.WellFormed) (h : a.push.Writes c) : a.Writes c.pop :=
  .of_binds_iff h.sameShape_pop (fun _ => frame_pop_push ha h) (binds_pop_push ha h)

end Closing

end Writes

end Scopes

/-- Frames beside themselves, with all writes since some frames made by the discipline. -/
def Scopes.WrittenSince (before a b : Scopes) : Prop :=
  a = b ∧ before.WellFormed ∧ before.Writes a

/-- Frames that are closed again were opened on others. -/
theorem Scopes.closesInto_writtenSince
    {before a : Scopes} (hbefore : before.WellFormed) (h : before.Writes a) {frame : Frame}
    (hpop : ∀ c, (a.pushFrame frame).Writes c → a.Writes c.pop) :
    Scopes.ClosesInto (Scopes.WrittenSince (a.pushFrame frame)) (Scopes.WrittenSince before) := by
  apply Scopes.ClosesInto.of_not_atRoot
  rintro c _ ⟨rfl, _, hwrites⟩
  have hroot : c.atRoot = false := by
    have hpos := (h.shape.wellFormed hbefore).nonempty
    have hdepth := hwrites.shape.depth
    rw [Scopes.depth_pushFrame] at hdepth
    exact c.atRoot_eq_false (by omega)
  exact ⟨hroot, hroot, rfl, hbefore, h.trans hbefore (hpop c hwrites)⟩

/-- Constructs write by the discipline. -/
def FrameSimulation.writing : FrameSimulation where
  World := Scopes
  Rel := Scopes.WrittenSince
  lookup := by
    rintro before a _ ⟨rfl, _, _⟩ name
    rfl
  assign := by
    rintro before a _ ⟨rfl, hbefore, h⟩ name value
    have hassign := Scopes.Writes.assign (h.shape.wellFormed hbefore) name value
    exact ⟨rfl, hbefore, h.trans hbefore hassign⟩
  push := by
    rintro before a _ ⟨rfl, hbefore, h⟩
    have ha := h.shape.wellFormed hbefore
    refine ⟨a.push, ⟨rfl, ha.push, .refl _⟩, ?_⟩
    exact Scopes.closesInto_writtenSince hbefore h fun c => Scopes.Writes.pop_push ha
  pushBound := by
    rintro before a _ ⟨rfl, hbefore, h⟩ bindings
    have ha := h.shape.wellFormed hbefore
    refine ⟨a.pushBound bindings, ⟨rfl, ha.pushBound bindings, .refl _⟩, ?_⟩
    refine Scopes.closesInto_writtenSince hbefore h fun c hwrites => ?_
    rw [Scopes.Writes.pop_pushBound_eq hwrites]
    exact .refl a

section Sessions

variable {H : Type} {s s' : Session H}

theorem Session.writing_self (hformed : s.scopes.WellFormed) :
    FrameSimulation.writing.toSimulation.Rel (s.scopes, s.callDepth) s s :=
  ⟨rfl, s.scopes, ⟨rfl, hformed, .refl _⟩, rfl⟩

theorem Run.SimulatedBy.writes
    {scopes : Scopes} {calls : Nat} {run : Run H} {outcome : Outcome}
    (h : Run.SimulatedBy (fun _ => False)
      (FrameSimulation.writing.toSimulation.Rel (scopes, calls)) run run)
    (hrun : run = some (outcome, s')) : scopes.Writes s'.scopes := by
  obtain ⟨_, _, _, _, ⟨_, _, hwrites⟩, _⟩ := h.exists_of_eq_some hrun
  exact hwrites

theorem eval_writes
    (hformed : s.scopes.WellFormed) {fuel : Nat} {node : Node} {outcome : Outcome}
    (heval : eval fuel node s = some (outcome, s')) : s.scopes.Writes s'.scopes :=
  (FrameSimulation.writing.toSimulation.keeps_eval (Nat.le_refl _) _ node s s
    (Session.writing_self hformed)).writes heval

/-- A construct that opens a frame adds no name to any frame that was there before. -/
theorem eval_binds_iff_of_opensFrame
    (hformed : s.scopes.WellFormed) {fuel : Nat} {node : Node} {outcome : Outcome}
    (hnode : node.opensFrame = true)
    (heval : eval fuel node s = some (outcome, s')) (index : Nat) (name : String) :
    s'.scopes.Binds index name ↔ s.scopes.Binds index name := by
  cases fuel with
  | zero =>
      cases heval
  | succ fuel =>
      have hkeeps :
          FrameSimulation.writing.toSimulation.Keeps (eval fuel : Eval.Evaluator H) (eval fuel) :=
        FrameSimulation.writing.toSimulation.keeps_eval (Nat.le_refl _)
      have hopened : s.enterScope.scopes.WellFormed := hformed.push
      have hframed := Simulation.framed_simulated hkeeps (Nat.le_refl fuel) node
        (Session.writing_self hopened)
      change Eval.step (eval fuel) fuel node s = some (outcome, s') at heval
      rw [Eval.step_of_opensFrame _ _ hnode, Eval.inFrame] at heval
      cases hrun : Eval.framed (eval fuel) fuel node s.enterScope with
      | none =>
          rw [hrun] at heval
          cases heval
      | some finished =>
          obtain ⟨outcome', c⟩ := finished
          have hwrites := hframed.writes hrun
          have hroot : c.scopes.atRoot = false := by
            have hdepth := hwrites.shape.depth
            have hpos := hformed.nonempty
            apply Scopes.atRoot_eq_false
            rw [hdepth]
            change 1 < s.scopes.push.depth
            rw [Scopes.depth_push]
            omega
          rw [hrun] at heval
          simp only [Eval.closeFrame_of_not_atRoot hroot] at heval
          cases heval
          exact Scopes.Writes.binds_pop_push hformed hwrites index name

/--
Local names are neither shadowed nor leaked. However evaluation ends, the frames are as many
and linked as before, and: a frame that is not visible is unchanged; a visible frame around
the current one binds the same names; the current frame binds all that it bound, and what it
binds besides no visible frame bound. A construct that opens a frame adds no name at all.
-/
theorem locals_neither_shadowed_nor_leaked
    (hformed : s.scopes.WellFormed) {fuel : Nat} {node : Node} {outcome : Outcome}
    (heval : eval fuel node s = some (outcome, s')) :
    s'.scopes.SameShape s.scopes ∧
    (∀ index, index ∉ s.scopes.chain → s'.scopes.frame index = s.scopes.frame index) ∧
    (∀ index ∈ s.scopes.chain, index ≠ s.scopes.current →
      ∀ name, s'.scopes.Binds index name ↔ s.scopes.Binds index name) ∧
    (∀ name, s.scopes.Binds s.scopes.current name → s'.scopes.Binds s.scopes.current name) ∧
    (∀ name, s'.scopes.Binds s.scopes.current name → ¬ s.scopes.Binds s.scopes.current name →
      ∀ index ∈ s.scopes.chain, ¬ s.scopes.Binds index name) ∧
    (node.opensFrame = true →
      ∀ name, s'.scopes.Binds s.scopes.current name ↔ s.scopes.Binds s.scopes.current name) := by
  have hwrites := eval_writes hformed heval
  exact ⟨hwrites.shape, hwrites.hidden, hwrites.outer, hwrites.kept, hwrites.fresh,
    fun hnode => eval_binds_iff_of_opensFrame hformed hnode heval s.scopes.current⟩

end Sessions

/-- A caller that binds `y`, and a frame inside that of a call that binds `x`. -/
def Session.inCall : Session Unit :=
  ((Session.quiet.setLocal "y" .null).enterCallScope.setLocal "x" .null).enterScope

/-- Writes `x` and `y`, then `z` in a frame of its own, and fails. -/
def Node.failingWrites : Node :=
  .block
    [.setLocal "x" (.literal (.boolean true)), .setLocal "y" (.literal (.boolean true)),
      .branch (.literal (.boolean true))
        (.block [.setLocal "z" (.literal .null), .var "missing"]) none]

theorem Session.inCall_wellFormed : Session.inCall.scopes.WellFormed := by
  have hcaller : (Session.quiet.setLocal "y" .null).scopes.WellFormed :=
    Scopes.wellFormed_root.bindAt _ _ _
  have hcall : (Session.quiet.setLocal "y" .null).enterCallScope.scopes.WellFormed :=
    hcaller.pushBound []
  exact (hcall.bindAt _ _ _).push

theorem locals_neither_shadowed_nor_leaked_failingWrites :
    ∃ s', eval 6 Node.failingWrites Session.inCall =
        some (.failed (.undefinedGlobal "missing"), s') ∧
      s'.scopes.frame 0 = Session.inCall.scopes.frame 0 ∧
      (s'.scopes.Binds 1 "x" ↔ Session.inCall.scopes.Binds 1 "x") ∧
      s'.scopes.Binds 2 "y" ∧
      ∀ index ∈ Session.inCall.scopes.chain, ¬ Session.inCall.scopes.Binds index "y" := by
  have heval : ∃ s', eval 6 Node.failingWrites Session.inCall =
        some (.failed (.undefinedGlobal "missing"), s') ∧ s'.scopes.Binds 2 "y" :=
    ⟨_, rfl, by decide⟩
  obtain ⟨s', heval, hadded⟩ := heval
  obtain ⟨_, hhidden, houter, _, hfresh, _⟩ :=
    locals_neither_shadowed_nor_leaked Session.inCall_wellFormed heval
  exact ⟨s', heval, hhidden 0 (by decide), houter 1 (by decide) (by decide) "x", hadded,
    hfresh "y" hadded (by decide)⟩

end DocScript
