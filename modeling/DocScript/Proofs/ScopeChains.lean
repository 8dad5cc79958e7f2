import DocScript.Proofs.Frames
import DocScript.Proofs.Tables
import Mathlib.Algebra.GroupWithZero.Nat
import Mathlib.Data.List.Find

/-!
# Frames are a stack of scope chains

Frames lie in one array and are linked by indices. What they stand for is plainer: a stack
of calls, each a list of maps from names to values, with the innermost map first. Only the
maps of the running call are seen and written.

`CallStack` is this plain form, in which neither a call without maps nor a stack without
calls can be built. `Scopes.Represents` says how frames stand for it: a frame was opened on
frames that stand for a stack, inside the current frame or for a call. Every operation on
frames does to the frames what its plain counterpart does to the stack, so that no sequence
of operations tells the two apart.

**Results.**
* `Scopes.get?_visible`: the visible bindings are those that a look-up finds.
* `Scopes.Walks`, `Scopes.WellFormed.walks`: the chain is walked to its end, within bounds.
* `Scopes.Represents.assign`, `Scopes.Represents.pop` and their companions: operations keep
  frames and stack together.
* `scopes_refine_callStack`: all answers are the same.
-/

namespace DocScript

/-- What names stand for. -/
abbrev Bindings :=
  String → Option Value

/-- The maps of a call, innermost first. There is one at least. -/
structure Segment where
  inner : Bindings
  outer : List Bindings

namespace Segment

/-- All maps, innermost first. -/
def maps (segment : Segment) : List Bindings :=
  segment.inner :: segment.outer

/-- The value that the innermost map with a name has for it. -/
def lookup (segment : Segment) (name : String) : Option Value :=
  segment.maps.findSome? fun map => map name

/-- One map made of all, in which inner maps go before outer ones. -/
def visible (segment : Segment) : Bindings :=
  segment.maps.foldr (fun map around name => (map name).or (around name)) fun _ => none

/-- Writes to the innermost map. -/
def declare (segment : Segment) (name : String) (value : Value) : Segment :=
  { segment with inner := Function.update segment.inner name (some value) }

/-- Writes to the first map that has a name. -/
def overwrite (name : String) (value : Value) : List Bindings → List Bindings
  | [] => []
  | map :: rest =>
      if (map name).isSome then Function.update map name (some value) :: rest
      else map :: overwrite name value rest

/-- Writes to the innermost map that has a name, or else to the innermost map. -/
def assign (segment : Segment) (name : String) (value : Value) : Segment :=
  if (segment.inner name).isSome then segment.declare name value
  else if segment.outer.any fun map => (map name).isSome then
    { segment with outer := overwrite name value segment.outer }
  else segment.declare name value

end Segment

/-- The calls that are running, the last one first. There is one at least. -/
structure CallStack where
  running : Segment
  callers : List Segment

namespace CallStack

/-- One call with one map, which is empty. -/
def root : CallStack :=
  ⟨⟨fun _ => none, []⟩, []⟩

/-- Puts a map inside those of the running call. -/
def nest (stack : CallStack) (map : Bindings) : CallStack :=
  { stack with running := ⟨map, stack.running.maps⟩ }

/-- Starts a call with one map. -/
def call (stack : CallStack) (map : Bindings) : CallStack :=
  ⟨⟨map, []⟩, stack.running :: stack.callers⟩

/-- Removes the innermost map, and with the last map of a call the call, but never the last map. -/
def pop? (stack : CallStack) : Option CallStack :=
  match stack.running.outer, stack.callers with
  | inner :: outer, callers => some ⟨⟨inner, outer⟩, callers⟩
  | [], caller :: callers => some ⟨caller, callers⟩
  | [], [] => none

/-- The value of a name in the running call. -/
def getLocal (stack : CallStack) (name : String) : Except EvalFault Value :=
  match stack.running.lookup name with
  | some value => .ok value
  | none => .error (.unboundLocal name)

/-- Writes a name in the running call, where it is bound or else innermost. -/
def assign (stack : CallStack) (name : String) (value : Value) : CallStack :=
  { stack with running := stack.running.assign name value }

/-- Writes a name to the innermost map. -/
def declare (stack : CallStack) (name : String) (value : Value) : CallStack :=
  { stack with running := stack.running.declare name value }

/-- How many maps there are in all. -/
def depth (stack : CallStack) : Nat :=
  ((stack.running :: stack.callers).map fun segment => segment.maps.length).sum

end CallStack

section Operations

/-- The operations on local names. -/
inductive LocalOp where
  | push
  | pushCall
  | pop
  | assign (name : String) (value : Value)
  | declare (name : String) (value : Value)
  | lookup (name : String)
  | contains (name : String)
  | visible

/-- What an operation answers. -/
inductive LocalAnswer where
  | opened (index : Nat)
  | closed (result : Except EvalFault Unit)
  | written
  | found (result : Except EvalFault Value)
  | bound (b : Bool)
  | bindings (map : Bindings)

/-- The answers to operations, each with the number of frames after it. -/
def LocalOp.answers {σ : Type} (perform : σ → LocalOp → LocalAnswer × σ) (depth : σ → Nat)
    (state : σ) : List LocalOp → List (LocalAnswer × Nat)
  | [] => []
  | op :: rest =>
      ((perform state op).1, depth (perform state op).2) ::
        answers perform depth (perform state op).2 rest

/-- An operation on the frames of a session. -/
def Session.perform {H : Type} (s : Session H) : LocalOp → LocalAnswer × Session H
  | .push => (.opened s.enterScope.scopes.current, s.enterScope)
  | .pushCall => (.opened s.enterCallScope.scopes.current, s.enterCallScope)
  | .pop =>
      match s.exitScope with
      | .ok closed => (.closed (.ok ()), closed)
      | .error fault => (.closed (.error fault), s)
  | .assign name value => (.written, s.setLocal name value)
  | .declare name value => (.written, s.declare name value)
  | .lookup name => (.found (s.getLocal name), s)
  | .contains name => (.bound (s.scopes.contains name), s)
  | .visible => (.bindings s.scopes.visible.get?, s)

/-- The session after operations on its frames. -/
def Session.performAll {H : Type} (s : Session H) (ops : List LocalOp) : Session H :=
  ops.foldl (fun s op => (s.perform op).2) s

/-- The same operation on a stack. -/
def CallStack.perform (stack : CallStack) : LocalOp → LocalAnswer × CallStack
  | .push => (.opened stack.depth, stack.nest fun _ => none)
  | .pushCall => (.opened stack.depth, stack.call fun _ => none)
  | .pop =>
      match stack.pop? with
      | some below => (.closed (.ok ()), below)
      | none => (.closed (.error .rootFrame), stack)
  | .assign name value => (.written, stack.assign name value)
  | .declare name value => (.written, stack.declare name value)
  | .lookup name => (.found (stack.getLocal name), stack)
  | .contains name => (.bound (stack.running.lookup name).isSome, stack)
  | .visible => (.bindings stack.running.visible, stack)

end Operations

namespace Scopes

section LookUps

variable (scopes : Scopes)

/-- The bindings of the visible frames, innermost first. -/
def visibleMaps : List Bindings :=
  scopes.chain.map fun index => (scopes.frame index).bindings.get?

/-- The frame that a look-up stops at has a value for the name. -/
theorem lookup?_eq_findSome? (name : String) :
    scopes.lookup? name = scopes.visibleMaps.findSome? fun map => map name := by
  unfold lookup? owner? visibleMaps
  induction scopes.chain with
  | nil =>
      rfl
  | cons index rest ih =>
      rw [List.find?_cons, List.map_cons, List.findSome?_cons]
      cases hvalue : (scopes.frame index).bindings.get? name with
      | none =>
          simpa [Table.contains, hvalue] using ih
      | some value =>
          simp [Table.contains, hvalue]

theorem contains_eq_isSome_lookup? (name : String) :
    scopes.contains name = (scopes.lookup? name).isSome := by
  unfold contains lookup?
  cases howner : scopes.owner? name with
  | none =>
      rfl
  | some index =>
      have hbound := List.find?_some howner
      simpa [Table.contains] using hbound.symm

/-- The visible bindings are those that a look-up finds. -/
theorem get?_visible (name : String) : scopes.visible.get? name = scopes.lookup? name := by
  rw [lookup?_eq_findSome?]
  unfold visible visibleMaps
  -- What is found along the chain comes after what has been seen before it.
  suffices h : ∀ (chain : List Nat) (seen : Table Value),
      (chain.foldl
        (fun seen index =>
          (scopes.frame index).bindings.entries.foldl
            (fun seen (entry : String × Value) =>
              if seen.contains entry.1 then seen else seen.insert entry.1 entry.2)
            seen)
        seen).get? name =
      (seen.get? name).or
        ((chain.map fun index => (scopes.frame index).bindings.get?).findSome?
          fun map => map name) by
    simpa using h scopes.chain .empty
  intro chain
  induction chain with
  | nil =>
      simp
  | cons index rest ih =>
      intro seen
      rw [List.foldl_cons, ih, Table.get?_addMissing, List.map_cons, List.findSome?_cons,
        Option.or_assoc]
      cases hvalue : Table.find name (scopes.frame index).bindings.entries <;>
        simp [Table.get?, hvalue]

/-- Each visible name is listed once. -/
theorem nodup_visible : scopes.visible.names.Nodup := by
  let once (seen : Table Value) : Prop := seen.names.Nodup
  refine List.foldlRecOn (motive := once) scopes.chain _ List.nodup_nil
    fun seen hseen index _ => ?_
  refine List.foldlRecOn (motive := once) _ _ hseen fun seen hseen (name, value) _ => ?_
  simp only
  split
  · exact hseen
  · exact Table.nodup_names_insert hseen name value

end LookUps

section Walks

/-- The indices met by following links from a given one until a frame continues none. -/
inductive Walks (scopes : Scopes) : Nat → List Nat → Prop
  | last
      {index : Nat} (hlt : index < scopes.depth)
      (hlink : (scopes.frame index).parent = none) :
      Walks scopes index [index]
  | next
      {index parent : Nat} {rest : List Nat} (hlt : index < scopes.depth)
      (hlink : (scopes.frame index).parent = some parent)
      (hrest : Walks scopes parent rest) :
      Walks scopes index (index :: rest)

theorem WellFormed.walks_chainFrom
    {scopes : Scopes} (h : scopes.WellFormed) {bound index : Nat}
    (hbound : index < bound) (hlt : index < scopes.depth) :
    scopes.Walks index (scopes.chainFrom bound index) := by
  induction bound generalizing index with
  | zero =>
      omega
  | succ bound ih =>
      rw [chainFrom]
      cases hlink : (scopes.frame index).parent with
      | none =>
          exact .last hlt hlink
      | some parent =>
          have hdown := h.parent_lt index parent hlink
          exact .next hlt hlink (ih (by omega) (by omega))

/-- The chain of the current frame follows the links down to the last one. -/
theorem WellFormed.walks {scopes : Scopes} (h : scopes.WellFormed) :
    scopes.Walks scopes.current scopes.chain :=
  h.walks_chainFrom h.current_lt h.current_lt

end Walks

section OpenedFrames

variable {scopes : Scopes} {frame : Frame}

theorem visibleMaps_pushFrame_of_none (scopes : Scopes) (hparent : frame.parent = none) :
    (scopes.pushFrame frame).visibleMaps = [frame.bindings.get?] := by
  rw [visibleMaps, chain_pushFrame_of_none scopes hparent, List.map_singleton, frame_pushFrame,
    if_pos rfl]

/-- A frame that continues the current one is put in front of all that is visible. -/
theorem visibleMaps_pushFrame_of_some
    (h : scopes.WellFormed) (hparent : frame.parent = some scopes.current) :
    (scopes.pushFrame frame).visibleMaps = frame.bindings.get? :: scopes.visibleMaps := by
  have hbelow : ∀ index ∈ scopes.chain,
      ((scopes.pushFrame frame).frame index).bindings.get? =
        (scopes.frame index).bindings.get? := by
    intro index hmem
    have hlt := lt_of_mem_chain h hmem
    rw [frame_pushFrame, if_neg (by omega)]
  rw [visibleMaps, chain_pushFrame_of_some h hparent, List.map_cons, List.map_congr_left hbelow,
    frame_pushFrame, if_pos rfl]
  rfl

theorem lookup?_pushFrame_of_none (scopes : Scopes) (hparent : frame.parent = none)
    (name : String) : (scopes.pushFrame frame).lookup? name = frame.bindings.get? name := by
  rw [lookup?_eq_findSome?, visibleMaps_pushFrame_of_none scopes hparent, List.findSome?_singleton]

/-- A name is looked up in the frame that was opened, and then in those that it continues. -/
theorem lookup?_pushFrame_of_some
    (h : scopes.WellFormed) (hparent : frame.parent = some scopes.current) (name : String) :
    (scopes.pushFrame frame).lookup? name =
      (frame.bindings.get? name).or (scopes.lookup? name) := by
  rw [lookup?_eq_findSome?, visibleMaps_pushFrame_of_some h hparent, List.findSome?_cons,
    ← lookup?_eq_findSome?]
  cases frame.bindings.get? name <;> rfl

/-- A frame that continues none is the only one that may bind a name. -/
theorem owner?_pushFrame_of_none (scopes : Scopes) (hparent : frame.parent = none)
    (name : String) :
    (scopes.pushFrame frame).owner? name =
      if frame.bindings.contains name then some scopes.depth else none := by
  rw [owner?, chain_pushFrame_of_none scopes hparent, List.find?_singleton, frame_pushFrame,
    if_pos rfl]

/-- A frame that continues the current one is asked first, and then those before. -/
theorem owner?_pushFrame_of_some
    (h : scopes.WellFormed) (hparent : frame.parent = some scopes.current) (name : String) :
    (scopes.pushFrame frame).owner? name =
      if frame.bindings.contains name then some scopes.depth else scopes.owner? name := by
  have hbelow : ∀ index ∈ scopes.chain,
      ((scopes.pushFrame frame).frame index).bindings.contains name =
        (scopes.frame index).bindings.contains name := by
    intro index hmem
    have hlt := lt_of_mem_chain h hmem
    rw [frame_pushFrame, if_neg (by omega)]
  rw [owner?, chain_pushFrame_of_some h hparent, List.find?_cons, List.find?_congr hbelow,
    frame_pushFrame, if_pos rfl]
  cases frame.bindings.contains name <;> rfl

theorem bindAt_pushFrame
    {index : Nat} (hlt : index < scopes.depth) (name : String) (value : Value) :
    (scopes.pushFrame frame).bindAt index name value =
      (scopes.bindAt index name value).pushFrame frame := by
  apply ext_frame
  · simp
  · intro other
    simp only [frame_bindAt, frame_pushFrame, depth_pushFrame, depth_bindAt]
    by_cases hother : other = scopes.depth
    · rw [if_neg (by omega), if_pos hother, if_pos hother]
    · rw [if_neg hother, if_neg hother, if_neg (by omega : index ≠ scopes.depth)]
      by_cases heq : other = index
      · rw [if_pos ⟨heq, by omega⟩, if_pos ⟨heq, hlt⟩]
      · rw [if_neg (by omega), if_neg (by omega)]

/-- A name that no frame but the current one binds is written there. -/
theorem assign_eq_declare
    {name : String} (howner : ∀ index, scopes.owner? name = some index → index = scopes.current)
    (value : Value) : scopes.assign name value = scopes.declare name value := by
  unfold assign declare
  cases hfound : scopes.owner? name with
  | none =>
      rfl
  | some index =>
      rw [howner index hfound]
      rfl

theorem assign_pushFrame_of_none (scopes : Scopes) (hparent : frame.parent = none)
    (name : String) (value : Value) :
    (scopes.pushFrame frame).assign name value = (scopes.pushFrame frame).declare name value := by
  apply assign_eq_declare
  intro index howner
  rw [owner?_pushFrame_of_none scopes hparent] at howner
  split at howner
  · cases howner
    rw [current_pushFrame]
  · cases howner

/-- A name that the frame has is set there. -/
theorem assign_pushFrame_of_inner
    (h : scopes.WellFormed) (hparent : frame.parent = some scopes.current)
    {name : String} (hframe : frame.bindings.contains name = true) (value : Value) :
    (scopes.pushFrame frame).assign name value = (scopes.pushFrame frame).declare name value := by
  apply assign_eq_declare
  intro index howner
  rw [owner?_pushFrame_of_some h hparent, if_pos hframe] at howner
  cases howner
  rw [current_pushFrame]

/-- A name that no visible frame has is declared in the current one. -/
theorem assign_pushFrame_of_unbound
    (h : scopes.WellFormed) (hparent : frame.parent = some scopes.current)
    {name : String} (hunbound : scopes.owner? name = none) (value : Value) :
    (scopes.pushFrame frame).assign name value = (scopes.pushFrame frame).declare name value := by
  apply assign_eq_declare
  intro index howner
  rw [owner?_pushFrame_of_some h hparent, hunbound] at howner
  split at howner
  · cases howner
    rw [current_pushFrame]
  · cases howner

/-- A name that a frame further out binds is written there, as if that frame's were all. -/
theorem assign_pushFrame_of_outer
    (h : scopes.WellFormed) (hparent : frame.parent = some scopes.current)
    {name : String} (hframe : frame.bindings.contains name = false)
    {index : Nat} (howner : scopes.owner? name = some index) (value : Value) :
    (scopes.pushFrame frame).assign name value =
      (scopes.assign name value).pushFrame frame := by
  have hlt := lt_of_mem_chain h (List.mem_of_find?_eq_some howner)
  rw [assign, owner?_pushFrame_of_some h hparent, if_neg (Bool.eq_false_iff.mp hframe), assign,
    howner]
  exact bindAt_pushFrame hlt name value

end OpenedFrames

end Scopes

section Stacks

variable {segment : Segment} {stack : CallStack} {map : Bindings} {name : String}

/-- What is visible under a name is what the name is looked up as. -/
theorem Segment.visible_eq_lookup (segment : Segment) (name : String) :
    segment.visible name = segment.lookup name := by
  unfold Segment.visible Segment.lookup
  induction segment.maps with
  | nil =>
      rfl
  | cons map rest ih =>
      rw [List.foldr_cons, List.findSome?_cons, ih]
      cases map name <;> rfl

theorem Segment.assign_of_inner
    (hinner : (segment.inner name).isSome = true) (value : Value) :
    segment.assign name value = segment.declare name value := by
  rw [Segment.assign, if_pos hinner]

theorem Segment.assign_of_unbound
    (houter : (segment.outer.findSome? fun map => map name) = none) (value : Value) :
    segment.assign name value = segment.declare name value := by
  unfold Segment.assign
  rw [← List.isSome_findSome?, houter]
  simp

theorem Segment.assign_of_outer
    (hinner : (segment.inner name).isSome = false)
    (houter : (segment.outer.findSome? fun map => map name).isSome = true) (value : Value) :
    segment.assign name value =
      { segment with outer := Segment.overwrite name value segment.outer } := by
  rw [List.isSome_findSome?] at houter
  rw [Segment.assign, if_neg (Bool.eq_false_iff.mp hinner), if_pos houter]

/-- A name that some map has is written where it is found. -/
theorem Segment.maps_assign_of_bound
    (hbound : (segment.lookup name).isSome = true) (value : Value) :
    (segment.assign name value).maps = Segment.overwrite name value segment.maps := by
  unfold Segment.lookup at hbound
  unfold Segment.maps at hbound ⊢
  rw [List.findSome?_cons] at hbound
  cases hinner : segment.inner name with
  | some old =>
      rw [Segment.assign_of_inner (by simp [hinner]) value]
      simp [Segment.overwrite, Segment.declare, hinner]
  | none =>
      rw [hinner] at hbound
      rw [Segment.assign_of_outer (by simp [hinner]) hbound value]
      simp [Segment.overwrite, hinner]

theorem CallStack.assign_nest_of_inner (hmap : (map name).isSome = true) (value : Value) :
    (stack.nest map).assign name value = (stack.nest map).declare name value := by
  unfold CallStack.assign CallStack.declare
  rw [Segment.assign_of_inner hmap]

theorem CallStack.assign_nest_of_unbound
    (hunbound : stack.running.lookup name = none) (value : Value) :
    (stack.nest map).assign name value = (stack.nest map).declare name value := by
  have houter : ((stack.nest map).running.outer.findSome? fun map => map name) = none :=
    hunbound
  unfold CallStack.assign CallStack.declare
  rw [Segment.assign_of_unbound houter]

theorem CallStack.assign_nest_of_outer
    (hmap : (map name).isSome = false) (hbound : (stack.running.lookup name).isSome = true)
    (value : Value) :
    (stack.nest map).assign name value = (stack.assign name value).nest map := by
  have houter : ((stack.nest map).running.outer.findSome? fun map => map name).isSome = true :=
    hbound
  have hmaps := Segment.maps_assign_of_bound hbound value
  unfold CallStack.assign
  rw [Segment.assign_of_outer hmap houter]
  simp only [CallStack.nest, hmaps]

end Stacks

/--
Frames that stand for a stack: each was opened on frames that do, inside the current frame or
for a call.
-/
inductive Scopes.Represents : Scopes → CallStack → Prop
  | root {frame : Frame} (hparent : frame.parent = none) :
      Represents ((Scopes.mk #[]).pushFrame frame) ⟨⟨frame.bindings.get?, []⟩, []⟩
  | nest
      {scopes : Scopes} {stack : CallStack} {frame : Frame}
      (hparent : frame.parent = some scopes.current)
      (hbelow : Represents scopes stack) :
      Represents (scopes.pushFrame frame) (stack.nest frame.bindings.get?)
  | call
      {scopes : Scopes} {stack : CallStack} {frame : Frame}
      (hparent : frame.parent = none)
      (hbelow : Represents scopes stack) :
      Represents (scopes.pushFrame frame) (stack.call frame.bindings.get?)

namespace Scopes.Represents

variable {scopes : Scopes} {stack : CallStack}

theorem of_root : Scopes.root.Represents CallStack.root := by
  have hparent : (default : Frame).parent = none := rfl
  exact .root hparent

theorem wellFormed (h : scopes.Represents stack) : scopes.WellFormed := by
  induction h with
  | root hparent =>
      refine ⟨by simp, fun index parent hlink => ?_⟩
      rw [frame_pushFrame] at hlink
      split at hlink
      · rw [hparent] at hlink
        cases hlink
      · cases hlink
  | nest hparent _ ih =>
      refine ih.pushFrame fun parent hlink => ?_
      rw [hparent] at hlink
      cases hlink
      exact ih.current_lt
  | call hparent _ ih =>
      refine ih.pushFrame fun parent hlink => ?_
      rw [hparent] at hlink
      cases hlink

theorem depth_eq (h : scopes.Represents stack) : scopes.depth = stack.depth := by
  induction h with
  | root =>
      rfl
  | nest _ _ ih =>
      rw [depth_pushFrame, ih]
      simp [CallStack.depth, CallStack.nest, Segment.maps]
      omega
  | call _ _ ih =>
      rw [depth_pushFrame, ih]
      simp [CallStack.depth, CallStack.call, Segment.maps]
      omega

/-- The visible frames are the maps of the running call. -/
theorem visibleMaps_eq (h : scopes.Represents stack) :
    scopes.visibleMaps = stack.running.maps := by
  induction h with
  | root hparent =>
      exact visibleMaps_pushFrame_of_none _ hparent
  | nest hparent hbelow ih =>
      rw [visibleMaps_pushFrame_of_some hbelow.wellFormed hparent, ih]
      rfl
  | call hparent _ _ =>
      exact visibleMaps_pushFrame_of_none _ hparent

theorem lookup?_eq (h : scopes.Represents stack) (name : String) :
    scopes.lookup? name = stack.running.lookup name := by
  rw [lookup?_eq_findSome?, h.visibleMaps_eq]
  rfl

theorem declare (h : scopes.Represents stack) (name : String) (value : Value) :
    (scopes.declare name value).Represents (stack.declare name value) := by
  cases h with
  | root hparent =>
      rw [declare_pushFrame, CallStack.declare, Segment.declare, ← Table.get?_insert]
      exact .root hparent
  | nest hparent hbelow =>
      rw [declare_pushFrame, CallStack.declare, CallStack.nest, Segment.declare,
        ← Table.get?_insert]
      exact .nest hparent hbelow
  | call hparent hbelow =>
      rw [declare_pushFrame, CallStack.declare, CallStack.call, Segment.declare,
        ← Table.get?_insert]
      exact .call hparent hbelow

/-- To set a name keeps frames and maps in step, whichever of them has it. -/
theorem assign (h : scopes.Represents stack) (name : String) (value : Value) :
    (scopes.assign name value).Represents (stack.assign name value) := by
  induction h with
  | root hparent =>
      rw [assign_pushFrame_of_none _ hparent, CallStack.assign, Segment.assign_of_unbound rfl]
      exact declare (.root hparent) name value
  | call hparent hbelow _ =>
      rw [assign_pushFrame_of_none _ hparent, CallStack.assign, Segment.assign_of_unbound rfl]
      exact declare (.call hparent hbelow) name value
  | @nest scopes stack frame hparent hbelow ih =>
      have hformed := hbelow.wellFormed
      cases hframe : frame.bindings.contains name with
      | true =>
          rw [assign_pushFrame_of_inner hformed hparent hframe,
            CallStack.assign_nest_of_inner hframe]
          exact declare (.nest hparent hbelow) name value
      | false =>
          cases howner : scopes.owner? name with
          | none =>
              have hunbound : stack.running.lookup name = none := by
                rw [← hbelow.lookup?_eq, lookup?, howner]
                rfl
              rw [assign_pushFrame_of_unbound hformed hparent howner,
                CallStack.assign_nest_of_unbound hunbound]
              exact declare (.nest hparent hbelow) name value
          | some index =>
              have hbound : (stack.running.lookup name).isSome = true := by
                rw [← hbelow.lookup?_eq, ← contains_eq_isSome_lookup?, contains, howner]
                rfl
              rw [assign_pushFrame_of_outer hformed hparent hframe howner,
                CallStack.assign_nest_of_outer hframe hbound]
              refine .nest ?_ ih
              rw [current_assign]
              exact hparent

/-- A frame that was opened on others is closed again. -/
theorem pop_pushFrame (h : scopes.Represents stack) (frame : Frame) :
    (scopes.pushFrame frame).atRoot = false ∧ (scopes.pushFrame frame).pop.Represents stack := by
  have hpos := h.wellFormed.nonempty
  constructor
  · apply atRoot_eq_false
    rw [depth_pushFrame]
    omega
  · rw [Scopes.pop_pushFrame]
    exact h

/-- The current frame is closed unless it is the only one. -/
theorem pop (h : scopes.Represents stack) :
    (scopes.atRoot = true ∧ stack.pop? = none) ∨
    ∃ below, scopes.atRoot = false ∧ stack.pop? = some below ∧ scopes.pop.Represents below := by
  cases h with
  | root hparent =>
      exact .inl ⟨rfl, rfl⟩
  | @nest scopes stack frame hparent hbelow =>
      obtain ⟨hroot, hpop⟩ := hbelow.pop_pushFrame frame
      exact .inr ⟨stack, hroot, rfl, hpop⟩
  | @call scopes stack frame hparent hbelow =>
      obtain ⟨hroot, hpop⟩ := hbelow.pop_pushFrame frame
      exact .inr ⟨stack, hroot, rfl, hpop⟩

end Scopes.Represents

section Refinement

variable {H : Type} {s : Session H} {stack : CallStack}

/-- Each operation has the same answer from frames as from the stack they stand for. -/
theorem Scopes.Represents.perform (h : s.scopes.Represents stack) (op : LocalOp) :
    (s.perform op).1 = (stack.perform op).1 ∧
      (s.perform op).2.scopes.Represents (stack.perform op).2 := by
  cases op with
  | push =>
      have hopened : s.enterScope.scopes.current = stack.depth := by
        rw [← h.depth_eq]
        exact Scopes.current_pushFrame _ _
      exact ⟨congrArg LocalAnswer.opened hopened, .nest rfl h⟩
  | pushCall =>
      have hopened : s.enterCallScope.scopes.current = stack.depth := by
        rw [← h.depth_eq]
        exact Scopes.current_pushFrame _ _
      exact ⟨congrArg LocalAnswer.opened hopened, .call rfl h⟩
  | pop =>
      rcases h.pop with ⟨hroot, hpop⟩ | ⟨below, hroot, hpop, hbelow⟩
      · have hexit : s.exitScope = .error .rootFrame := if_pos hroot
        simp only [Session.perform, CallStack.perform, hexit, hpop, true_and]
        exact h
      · have hexit : s.exitScope = .ok s.closeScope := if_neg (Bool.eq_false_iff.mp hroot)
        simp only [Session.perform, CallStack.perform, hexit, hpop, true_and]
        exact hbelow
  | assign name value =>
      exact ⟨rfl, h.assign name value⟩
  | declare name value =>
      exact ⟨rfl, h.declare name value⟩
  | lookup name =>
      have hfound : s.getLocal name = stack.getLocal name := by
        have hlookup := h.lookup?_eq name
        unfold Session.getLocal CallStack.getLocal
        generalize s.scopes.lookup? name = found at hlookup ⊢
        subst hlookup
        rfl
      exact ⟨congrArg LocalAnswer.found hfound, h⟩
  | contains name =>
      have hbound := s.scopes.contains_eq_isSome_lookup? name
      rw [h.lookup?_eq] at hbound
      exact ⟨congrArg LocalAnswer.bound hbound, h⟩
  | visible =>
      have hvisible : s.scopes.visible.get? = stack.running.visible := by
        funext name
        rw [Scopes.get?_visible, h.lookup?_eq, Segment.visible_eq_lookup]
      exact ⟨congrArg LocalAnswer.bindings hvisible, h⟩

/-- Any run of operations is answered the same by frames and by maps. -/
theorem Scopes.Represents.answers (h : s.scopes.Represents stack) (ops : List LocalOp) :
    LocalOp.answers Session.perform (fun s => s.scopes.depth) s ops =
      LocalOp.answers CallStack.perform CallStack.depth stack ops := by
  induction ops generalizing s stack with
  | nil =>
      rfl
  | cons op rest ih =>
      obtain ⟨hanswer, hafter⟩ := h.perform op
      simp only [LocalOp.answers, hanswer, hafter.depth_eq, ih hafter]

theorem Scopes.Represents.performAll (h : s.scopes.Represents stack) (ops : List LocalOp) :
    ∃ after, (s.performAll ops).scopes.Represents after := by
  induction ops generalizing s stack with
  | nil =>
      exact ⟨stack, h⟩
  | cons op rest ih =>
      exact ih (h.perform op).2

end Refinement

/--
Frames refine a stack of scope chains: no sequence of operations that starts from one empty
frame has an answer that the plain stack does not give. In every state that such operations
lead to, there is a frame, every frame continues one below it, so that the chain is walked to
its end and stays within the frames, and the visible bindings are those that a look-up finds,
each listed once.
-/
theorem scopes_refine_callStack {H : Type} (s : Session H) (ops : List LocalOp) :
    let start := { s with scopes := Scopes.root }
    let scopes := (start.performAll ops).scopes
    LocalOp.answers Session.perform (fun s => s.scopes.depth) start ops =
      LocalOp.answers CallStack.perform CallStack.depth CallStack.root ops ∧
    0 < scopes.depth ∧
    (∀ index parent, (scopes.frame index).parent = some parent → parent < index) ∧
    scopes.Walks scopes.current scopes.chain ∧
    (∀ name, scopes.visible.get? name = scopes.lookup? name) ∧
    scopes.visible.names.Nodup := by
  intro start scopes
  have hstart : start.scopes.Represents CallStack.root := .of_root
  obtain ⟨after, hafter⟩ := hstart.performAll ops
  have hformed := hafter.wellFormed
  exact ⟨hstart.answers ops, hformed.nonempty, hformed.parent_lt, hformed.walks,
    fun name => scopes.get?_visible name, scopes.nodup_visible⟩

end DocScript
