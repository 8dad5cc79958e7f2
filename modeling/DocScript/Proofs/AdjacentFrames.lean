import DocScript.Proofs.LocalWrites
import DocScript.Proofs.ScopeChains

/-!
# One frame or two

A frame can be split in two, one inside the other, that bind the same names between them and
none in both. Evaluation does not tell the frame from the two. A look-up asks the two one
after the other. A name that one of them binds is written where it is bound, as a write goes
to the nearest binding, and a new name goes to the inner one. So no name ever comes to be in
both, whatever is opened and closed on top of them.

`Table.Joins` says of a table that it binds what two others do. `Scopes.Splits` says of frames
that they differ in a frame that is split in the second, below frames opened alike; it is
kept by every operation on frames as long as the split frame is not closed.

**Results.**
* `Scopes.Splits.lookup?_eq`, `Scopes.Splits.assign`, `Scopes.Splits.closesInto`: operations
  on frames keep them split.
* `FrameSimulation.splitting`: so do constructs.
* `Scopes.SameShape.splits_push`: to open a frame is to split the current one.
* `Scopes.Splits.pop_eq`: when the split frame is closed, nothing is left of the difference.
-/

namespace DocScript

/-- A table that binds what an inner and an outer table bind, which have no name in common. -/
structure Table.Joins {α : Type} (joined inner outer : Table α) : Prop where
  get?_eq : ∀ name, joined.get? name = (inner.get? name).or (outer.get? name)
  apart : ∀ name, inner.contains name = true → outer.contains name = false

namespace Table.Joins

variable {α : Type} {joined inner outer : Table α} {name : String}

theorem empty (outer : Table α) : outer.Joins .empty outer :=
  ⟨fun _ => rfl, fun _ hbound => by cases hbound⟩

theorem contains_eq (h : joined.Joins inner outer) (name : String) :
    joined.contains name = (inner.contains name || outer.contains name) := by
  simp [Table.contains, h.get?_eq]

theorem insert_inner (h : joined.Joins inner outer) (houter : outer.contains name = false)
    (value : α) : (joined.insert name value).Joins (inner.insert name value) outer := by
  refine ⟨fun other => ?_, fun other hbound => ?_⟩
  · by_cases hother : other = name
    · subst hother
      rw [get?_insert_self, get?_insert_self, Option.some_or]
    · rw [get?_insert_of_ne _ _ hother, get?_insert_of_ne _ _ hother, h.get?_eq]
  · rcases (contains_insert_iff inner name other value).mp hbound with rfl | hinner
    · exact houter
    · exact h.apart other hinner

theorem insert_outer (h : joined.Joins inner outer) (hinner : inner.contains name = false)
    (value : α) : (joined.insert name value).Joins inner (outer.insert name value) := by
  refine ⟨fun other => ?_, fun other hbound => ?_⟩
  · by_cases hother : other = name
    · subst hother
      have hnone : inner.get? other = none := by
        simpa [contains] using hinner
      rw [get?_insert_self, get?_insert_self, hnone, Option.none_or]
    · rw [get?_insert_of_ne _ _ hother, get?_insert_of_ne _ _ hother, h.get?_eq]
  · have hother : other ≠ name := by
      rintro rfl
      rw [hinner] at hbound
      cases hbound
    have houter := h.apart other hbound
    unfold contains at houter ⊢
    rw [get?_insert_of_ne _ _ hother, houter]

end Table.Joins

namespace Scopes

/--
Frames beside the same frames with one of them split in two, an inner and an outer one, and
so many frames opened on top.
-/
inductive Splits : Nat → Scopes → Scopes → Prop
  | split
      {scopes : Scopes} {joined inner outer : Table Value}
      (hscopes : scopes.WellFormed)
      (hjoins : joined.Joins inner outer) :
      Splits 0 (scopes.pushFrame ⟨joined, some scopes.current⟩)
        ((scopes.pushFrame ⟨outer, some scopes.current⟩).pushFrame ⟨inner, some scopes.depth⟩)
  | nest
      {above : Nat} {a b : Scopes} (bindings : Table Value)
      (hbelow : Splits above a b) :
      Splits (above + 1) (a.pushFrame ⟨bindings, some a.current⟩)
        (b.pushFrame ⟨bindings, some b.current⟩)
  | call
      {above : Nat} {a b : Scopes} (bindings : Table Value)
      (hbelow : Splits above a b) :
      Splits (above + 1) (a.pushFrame ⟨bindings, none⟩) (b.pushFrame ⟨bindings, none⟩)

theorem WellFormed.pushFrame_current {scopes : Scopes} (h : scopes.WellFormed)
    (bindings : Table Value) : (scopes.pushFrame ⟨bindings, some scopes.current⟩).WellFormed := by
  refine h.pushFrame fun parent hlink => ?_
  cases hlink
  exact h.current_lt

theorem WellFormed.pushFrame_none {scopes : Scopes} (h : scopes.WellFormed)
    (bindings : Table Value) : (scopes.pushFrame ⟨bindings, none⟩).WellFormed := by
  refine h.pushFrame fun parent hlink => ?_
  cases hlink

namespace Splits

variable {above : Nat} {a b : Scopes}

theorem wellFormed (h : Splits above a b) : a.WellFormed ∧ b.WellFormed := by
  induction h with
  | @split scopes joined inner outer hscopes _ =>
      have houter := hscopes.pushFrame_current outer
      have hinner := houter.pushFrame_current inner
      rw [current_pushFrame] at hinner
      exact ⟨hscopes.pushFrame_current joined, hinner⟩
  | nest bindings _ ih =>
      exact ⟨ih.1.pushFrame_current bindings, ih.2.pushFrame_current bindings⟩
  | call bindings _ ih =>
      exact ⟨ih.1.pushFrame_none bindings, ih.2.pushFrame_none bindings⟩

theorem lookup?_eq (h : Splits above a b) (name : String) : a.lookup? name = b.lookup? name := by
  induction h with
  | @split scopes joined inner outer hscopes hjoins =>
      have houter := hscopes.pushFrame_current outer
      rw [lookup?_pushFrame_of_some hscopes rfl, lookup?_pushFrame_of_some houter (by simp),
        lookup?_pushFrame_of_some hscopes rfl, hjoins.get?_eq, Option.or_assoc]
  | nest bindings hbelow ih =>
      obtain ⟨ha, hb⟩ := hbelow.wellFormed
      rw [lookup?_pushFrame_of_some ha rfl, lookup?_pushFrame_of_some hb rfl, ih]
  | call bindings _ _ =>
      rw [lookup?_pushFrame_of_none _ rfl, lookup?_pushFrame_of_none _ rfl]

/-- A name is bound in a visible frame of both, or of neither. -/
theorem isSome_owner?_eq (h : Splits above a b) (name : String) :
    (b.owner? name).isSome = (a.owner? name).isSome := by
  have hcontains := contains_eq_isSome_lookup? b name
  rw [← h.lookup?_eq, ← contains_eq_isSome_lookup?] at hcontains
  exact hcontains

section Write

variable {scopes : Scopes} {joined inner outer : Table Value} {name : String}
variable (hscopes : scopes.WellFormed) (hjoins : joined.Joins inner outer)

include hscopes hjoins

/-- A name that the frame binds is written to that one of the two that binds it. -/
theorem split_assign_of_bound (hbound : joined.contains name = true) (value : Value) :
    Splits 0 ((scopes.pushFrame ⟨joined, some scopes.current⟩).assign name value)
      (((scopes.pushFrame ⟨outer, some scopes.current⟩).pushFrame
        ⟨inner, some scopes.depth⟩).assign name value) := by
  have houter := hscopes.pushFrame_current outer
  rw [assign_pushFrame_of_inner hscopes rfl hbound, declare_pushFrame]
  cases hinner : inner.contains name with
  | true =>
      rw [assign_pushFrame_of_inner houter (by simp) hinner, declare_pushFrame]
      exact .split hscopes (hjoins.insert_inner (hjoins.apart name hinner) value)
  | false =>
      rw [hjoins.contains_eq, hinner, Bool.false_or] at hbound
      have howner : (scopes.pushFrame ⟨outer, some scopes.current⟩).owner? name =
          some scopes.depth := by
        rw [owner?_pushFrame_of_some hscopes rfl, if_pos hbound]
      rw [assign_pushFrame_of_outer houter (by simp) hinner howner,
        assign_pushFrame_of_inner hscopes rfl hbound, declare_pushFrame]
      exact .split hscopes (hjoins.insert_outer hinner value)

/-- Any other name is written below both, or else it is new and goes to the inner one. -/
theorem split_assign_of_unbound (hbound : joined.contains name = false) (value : Value) :
    Splits 0 ((scopes.pushFrame ⟨joined, some scopes.current⟩).assign name value)
      (((scopes.pushFrame ⟨outer, some scopes.current⟩).pushFrame
        ⟨inner, some scopes.depth⟩).assign name value) := by
  have houter := hscopes.pushFrame_current outer
  obtain ⟨hinner, hother⟩ : inner.contains name = false ∧ outer.contains name = false := by
    rw [hjoins.contains_eq] at hbound
    exact Bool.or_eq_false_iff.mp hbound
  have howner : (scopes.pushFrame ⟨outer, some scopes.current⟩).owner? name =
      scopes.owner? name := by
    rw [owner?_pushFrame_of_some hscopes rfl, if_neg (Bool.eq_false_iff.mp hother)]
  cases hfound : scopes.owner? name with
  | none =>
      rw [assign_pushFrame_of_unbound hscopes rfl hfound,
        assign_pushFrame_of_unbound houter (by simp) (howner.trans hfound), declare_pushFrame,
        declare_pushFrame]
      exact .split hscopes (hjoins.insert_inner hother value)
  | some index =>
      rw [assign_pushFrame_of_outer hscopes rfl hbound hfound,
        assign_pushFrame_of_outer houter (by simp) hinner (howner.trans hfound),
        assign_pushFrame_of_outer hscopes rfl hother hfound]
      have hwritten : (scopes.assign name value).WellFormed := hscopes.bindAt _ name value
      have hsplit := Splits.split hwritten hjoins
      rw [current_assign, depth_assign] at hsplit
      exact hsplit

end Write

theorem assign (h : Splits above a b) (name : String) (value : Value) :
    Splits above (a.assign name value) (b.assign name value) := by
  induction h with
  | @split scopes joined inner outer hscopes hjoins =>
      cases hbound : joined.contains name with
      | true =>
          exact split_assign_of_bound hscopes hjoins hbound value
      | false =>
          exact split_assign_of_unbound hscopes hjoins hbound value
  | call bindings hbelow _ =>
      rw [assign_pushFrame_of_none _ rfl, assign_pushFrame_of_none _ rfl, declare_pushFrame,
        declare_pushFrame]
      exact .call _ hbelow
  | @nest above a b bindings hbelow ih =>
      obtain ⟨ha, hb⟩ := hbelow.wellFormed
      have howner := hbelow.isSome_owner?_eq name
      cases hbound : bindings.contains name with
      | true =>
          rw [assign_pushFrame_of_inner ha rfl hbound, assign_pushFrame_of_inner hb rfl hbound,
            declare_pushFrame, declare_pushFrame]
          exact .nest _ hbelow
      | false =>
          cases ha' : a.owner? name with
          | none =>
              rw [ha', Option.isSome_none, Option.isSome_eq_false_iff, Option.isNone_iff_eq_none]
                at howner
              rw [assign_pushFrame_of_unbound ha rfl ha', assign_pushFrame_of_unbound hb rfl howner,
                declare_pushFrame, declare_pushFrame]
              exact .nest _ hbelow
          | some index =>
              rw [ha', Option.isSome_some] at howner
              obtain ⟨index', hb'⟩ := Option.isSome_iff_exists.mp howner
              rw [assign_pushFrame_of_outer ha rfl hbound ha',
                assign_pushFrame_of_outer hb rfl hbound hb']
              have hnest := Splits.nest bindings ih
              rw [current_assign, current_assign] at hnest
              exact hnest

theorem atRoot_pushFrame {scopes : Scopes} (h : scopes.WellFormed) (frame : Frame) :
    (scopes.pushFrame frame).atRoot = false := by
  have hpos := h.nonempty
  apply atRoot_eq_false
  rw [depth_pushFrame]
  omega

/-- A frame on top of a split one is closed on both sides. -/
theorem closesInto (above : Nat) :
    Scopes.ClosesInto (Splits (above + 1)) (Splits above) := by
  apply Scopes.ClosesInto.of_not_atRoot
  intro a b h
  cases h with
  | nest bindings hbelow | call bindings hbelow =>
      obtain ⟨ha, hb⟩ := hbelow.wellFormed
      rw [pop_pushFrame, pop_pushFrame]
      exact ⟨atRoot_pushFrame ha _, atRoot_pushFrame hb _, hbelow⟩

/-- Where the split frame is closed, so are the two on the other side, and the rest is the same. -/
theorem pop_eq (h : Splits 0 a b) :
    a.atRoot = false ∧ b.atRoot = false ∧ b.pop.atRoot = false ∧ a.pop = b.pop.pop := by
  cases h with
  | @split scopes joined inner outer hscopes _ =>
      rw [pop_pushFrame, pop_pushFrame, pop_pushFrame]
      exact ⟨atRoot_pushFrame hscopes _, atRoot_pushFrame (hscopes.pushFrame_current outer) _,
        atRoot_pushFrame hscopes _, rfl⟩

end Splits

/-- The current frame was opened last. -/
theorem pushFrame_pop {a : Scopes} (h : 0 < a.depth) : a.pop.pushFrame (a.frame a.current) = a := by
  have hdepth : a.current + 1 = a.depth := by
    unfold depth at h ⊢
    unfold current
    omega
  apply ext_frame
  · rw [depth_pushFrame, depth_pop]
    omega
  · intro index
    rw [frame_pushFrame, frame_pop, depth_pop]
    split
    · rename_i heq
      rw [heq, ← hdepth, Nat.add_sub_cancel]
    · split
      · rfl
      · rw [frame_of_depth_le a (by omega)]

/-- To open a frame inside one that was itself opened inside another is to split it. -/
theorem SameShape.splits_push {a before : Scopes} (h : a.SameShape before.push)
    (hbefore : before.WellFormed) : Splits 0 a a.push := by
  have hbelow : a.pop.SameShape before := by
    have hpop := h.pop
    rwa [pop_push] at hpop
  have hdepth := h.depth
  rw [depth_push] at hdepth
  have hcurrent : a.current = a.pop.depth := by
    rw [h.current, push_eq_pushFrame, current_pushFrame, hbelow.depth]
  have hlink : (a.frame a.current).parent = some a.pop.current := by
    rw [h.parent, h.current, push_eq_pushFrame, current_pushFrame, frame_pushFrame, if_pos rfl,
      hbelow.current]
  have hopened : a.pop.pushFrame ⟨(a.frame a.current).bindings, some a.pop.current⟩ = a := by
    rw [← hlink]
    exact pushFrame_pop (by omega)
  have hsplit := Splits.split (hbelow.wellFormed hbefore) (.empty (a.frame a.current).bindings)
  rw [hopened, ← hcurrent] at hsplit
  exact hsplit

end Scopes

/-- Constructs do the same to frames and to frames of which one is split. -/
def FrameSimulation.splitting : FrameSimulation where
  World := Nat
  Rel := Scopes.Splits
  lookup h name := h.lookup?_eq name
  assign h name value := h.assign name value
  push h := ⟨_, .nest .empty h, Scopes.Splits.closesInto _⟩
  pushBound h _ := ⟨_, .call _ h, Scopes.Splits.closesInto _⟩

end DocScript
