import DocScript.Table
import DocScript.Value.Basic

/-!
# Frames of local bindings

Local names live in frames. Frames are opened and closed at one end only, so the
current frame is the last one. A frame opened inside a construct continues the
current frame; a frame opened for a call continues none. From the current frame
the chain of continued frames is visible, innermost first.

A write goes to the nearest visible frame that binds the name, and to the current
frame when none does. So an inner write never hides an outer binding.
-/

namespace DocScript

/-- A frame: its bindings, and the index of the frame it continues. -/
structure Frame where
  bindings : Table Value := .empty
  parent : Option Nat := none

instance : Inhabited Frame := ⟨{}⟩

/-- The frames that are open, oldest first. -/
structure Scopes where
  frames : Array Frame := #[{}]

namespace Scopes

/-- One frame without bindings. -/
def root : Scopes := {}

instance : Inhabited Scopes := ⟨root⟩

/-- How many frames are open. -/
def depth (scopes : Scopes) : Nat :=
  scopes.frames.size

/-- The index of the current frame. -/
def current (scopes : Scopes) : Nat :=
  scopes.frames.size - 1

/-- The frame at an index. -/
def frame (scopes : Scopes) (index : Nat) : Frame :=
  scopes.frames.getD index default

/-- Opens a frame that continues the current one. -/
def push (scopes : Scopes) : Scopes :=
  ⟨scopes.frames.push ⟨.empty, some scopes.current⟩⟩

/-- Opens a frame that continues none. -/
def pushCall (scopes : Scopes) : Scopes :=
  ⟨scopes.frames.push ⟨.empty, none⟩⟩

/-- Whether the current frame is the only one, which cannot be closed. -/
def atRoot (scopes : Scopes) : Bool :=
  scopes.frames.size ≤ 1

/-- Closes the current frame. -/
def pop (scopes : Scopes) : Scopes :=
  ⟨scopes.frames.pop⟩

/--
The indices from a given one along the continued frames; at most `bound` of them
are followed.
-/
def chainFrom (scopes : Scopes) : Nat → Nat → List Nat
  | 0, _ => []
  | bound + 1, index =>
      index :: match (scopes.frame index).parent with
        | some parent => chainFrom scopes bound parent
        | none => []

/-- The indices of the visible frames, innermost first. -/
def chain (scopes : Scopes) : List Nat :=
  scopes.chainFrom scopes.depth scopes.current

/-- The nearest visible frame that binds a name. -/
def owner? (scopes : Scopes) (name : String) : Option Nat :=
  scopes.chain.find? fun index => (scopes.frame index).bindings.contains name

/-- The value that a name has. -/
def lookup? (scopes : Scopes) (name : String) : Option Value :=
  (scopes.owner? name).bind fun index => (scopes.frame index).bindings.get? name

/-- Whether a name is bound in a visible frame. -/
def contains (scopes : Scopes) (name : String) : Bool :=
  (scopes.owner? name).isSome

/-- Binds a name in the frame at an index. -/
def bindAt (scopes : Scopes) (index : Nat) (name : String) (value : Value) : Scopes :=
  let frame := scopes.frame index
  ⟨scopes.frames.setIfInBounds index
    { frame with bindings := frame.bindings.insert name value }⟩

/-- Writes to the nearest visible binding of a name, or makes one in the current frame. -/
def assign (scopes : Scopes) (name : String) (value : Value) : Scopes :=
  scopes.bindAt ((scopes.owner? name).getD scopes.current) name value

/-- Binds a name in the current frame. -/
def declare (scopes : Scopes) (name : String) (value : Value) : Scopes :=
  scopes.bindAt scopes.current name value

/-- All visible bindings; of several bindings of one name, the nearest. -/
def visible (scopes : Scopes) : Table Value :=
  scopes.chain.foldl
    (fun seen index =>
      (scopes.frame index).bindings.entries.foldl
        (fun seen (name, value) =>
          if seen.contains name then seen else seen.insert name value)
        seen)
    .empty

@[simp] theorem depth_root : root.depth = 1 := rfl

/-- To open a frame adds one. -/
@[simp] theorem depth_push (scopes : Scopes) : scopes.push.depth = scopes.depth + 1 := by
  simp [push, depth]

@[simp] theorem depth_pushCall (scopes : Scopes) :
    scopes.pushCall.depth = scopes.depth + 1 := by
  simp [pushCall, depth]

/-- To close a frame takes one away. -/
@[simp] theorem depth_pop (scopes : Scopes) : scopes.pop.depth = scopes.depth - 1 := by
  simp [pop, depth]

/-- Binding a name opens and closes no frame. -/
@[simp] theorem depth_bindAt (scopes : Scopes) (index : Nat) (name : String) (value : Value) :
    (scopes.bindAt index name value).depth = scopes.depth := by
  simp [bindAt, depth]

@[simp] theorem depth_assign (scopes : Scopes) (name : String) (value : Value) :
    (scopes.assign name value).depth = scopes.depth :=
  depth_bindAt _ _ _ _

@[simp] theorem depth_declare (scopes : Scopes) (name : String) (value : Value) :
    (scopes.declare name value).depth = scopes.depth :=
  depth_bindAt _ _ _ _

/-- Closing a frame undoes opening it. -/
@[simp] theorem pop_push (scopes : Scopes) : scopes.push.pop = scopes := by
  simp [push, pop]

@[simp] theorem pop_pushCall (scopes : Scopes) : scopes.pushCall.pop = scopes := by
  simp [pushCall, pop]

end Scopes
end DocScript
