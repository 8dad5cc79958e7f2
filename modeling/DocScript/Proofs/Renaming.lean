import DocScript.Proofs.Frames
import DocScript.Proofs.Subtrees
import DocScript.Proofs.Tables

/-!
# Other names for local variables

A renaming gives local variables other names. It is applied to trees, to the parameters
and the code of functions, and to the bindings of frames. The names of global variables,
functions and units stay, and so do values.

No two local variables may be given the same name: then a frame binds the new name of a
variable exactly if it bound the old one, and all that is done with frames is done in the
same way under the new names.

**Results.**
* `Scopes.lookup?_renameLocals`, `Scopes.assign_renameLocals`, `Scopes.pushBound_renameLocals`
  and their companions: renaming commutes with what is done with frames.
* `Eval.bindArguments_renameLocals`, `Eval.chooseCase_renameLocals`: and with what is done
  with parameters and cases.
* `Node.renameLocals_id`, `Session.renameLocals_id`: where every name stays, so do the tree
  and the session.
-/

namespace DocScript

/-- Parameters under other names. -/
def Params.renameLocals (rename : String → String) : Params → Params
  | .fixed names => .fixed (names.map rename)
  | .variadic name => .variadic (rename name)

namespace Node

mutual

/-- A tree in which local variables have other names. -/
def renameLocals (rename : String → String) : Node → Node
  | .literal value => .literal value
  | .block statements => .block (renameItems rename statements)
  | .var name => .var name
  | .localVar name none => .localVar (rename name) none
  | .localVar name (some value) => .localVar (rename name) (some (renameLocals rename value))
  | .set name value => .set name (renameLocals rename value)
  | .setLocal name value => .setLocal (rename name) (renameLocals rename value)
  | .branch condition thenBranch none =>
      .branch (renameLocals rename condition) (renameLocals rename thenBranch) none
  | .branch condition thenBranch (some elseBranch) =>
      .branch (renameLocals rename condition) (renameLocals rename thenBranch)
        (some (renameLocals rename elseBranch))
  | .forLoop init condition step code =>
      .forLoop (renameLocals rename init) (renameLocals rename condition)
        (renameLocals rename step) (renameLocals rename code)
  | .whileLoop condition code =>
      .whileLoop (renameLocals rename condition) (renameLocals rename code)
  | .switch value cases => .switch (renameLocals rename value) (renameCases rename cases)
  | .define name params code =>
      .define name (params.renameLocals rename) (renameLocals rename code)
  | .call name args => .call name (renameItems rename args)
  | .ret value => .ret (renameLocals rename value)
  | .imports references => .imports references
  | .list items => .list (renameItems rename items)
  | .operation op operands => .operation op (renameItems rename operands)
  | .comment => .comment

/-- Trees with other names for local variables, one by one. -/
def renameItems (rename : String → String) : List Node → List Node
  | [] => []
  | node :: rest => renameLocals rename node :: renameItems rename rest

/-- The cases of a `switch` with other names for local variables, one by one. -/
def renameCases (rename : String → String) : List (String × Node) → List (String × Node)
  | [] => []
  | (key, node) :: rest => (key, renameLocals rename node) :: renameCases rename rest

end

end Node

theorem Node.renameItems_eq_map (rename : String → String) (nodes : List Node) :
    renameItems rename nodes = nodes.map (renameLocals rename) := by
  induction nodes with
  | nil =>
      rfl
  | cons node rest ih =>
      rw [renameItems, List.map_cons, ih]

theorem Node.renameCases_eq_map (rename : String → String) (cases : List (String × Node)) :
    renameCases rename cases = cases.map (Prod.map id (renameLocals rename)) := by
  induction cases with
  | nil =>
      rfl
  | cons case rest ih =>
      rw [renameCases, List.map_cons, ih]
      rfl

/-- Parameters that keep their names stay as they are. -/
theorem Params.renameLocals_id (params : Params) : params.renameLocals id = params := by
  cases params <;> simp [renameLocals]

namespace Node

mutual

/-- A tree stays as it is if all names stay. -/
theorem renameLocals_id : ∀ node : Node, node.renameLocals id = node
  | .literal _ | .var _ | .localVar _ none | .imports _ | .comment => rfl
  | .block statements => congrArg Node.block (renameItems_id statements)
  | .localVar name (some value) => by rw [renameLocals, renameLocals_id value, id_eq]
  | .set name value => by rw [renameLocals, renameLocals_id value]
  | .setLocal name value => by rw [renameLocals, renameLocals_id value, id_eq]
  | .branch condition thenBranch none => by
      rw [renameLocals, renameLocals_id condition, renameLocals_id thenBranch]
  | .branch condition thenBranch (some elseBranch) => by
      rw [renameLocals, renameLocals_id condition, renameLocals_id thenBranch,
        renameLocals_id elseBranch]
  | .forLoop init condition step code => by
      rw [renameLocals, renameLocals_id init, renameLocals_id condition, renameLocals_id step,
        renameLocals_id code]
  | .whileLoop condition code => by
      rw [renameLocals, renameLocals_id condition, renameLocals_id code]
  | .switch value cases => by rw [renameLocals, renameLocals_id value, renameCases_id cases]
  | .define name params code => by
      rw [renameLocals, params.renameLocals_id, renameLocals_id code]
  | .call name args => congrArg (Node.call name) (renameItems_id args)
  | .ret value => congrArg Node.ret (renameLocals_id value)
  | .list items => congrArg Node.list (renameItems_id items)
  | .operation op operands => congrArg (Node.operation op) (renameItems_id operands)

theorem renameItems_id : ∀ nodes : List Node, renameItems id nodes = nodes
  | [] => rfl
  | node :: rest => by rw [renameItems, renameLocals_id node, renameItems_id rest]

theorem renameCases_id : ∀ cases : List (String × Node), renameCases id cases = cases
  | [] => rfl
  | (key, node) :: rest => by rw [renameCases, renameLocals_id node, renameCases_id rest]

end

end Node

/-- A frame with other names for local variables. -/
def Frame.renameLocals (rename : String → String) (frame : Frame) : Frame :=
  { frame with bindings := frame.bindings.mapNames rename }

namespace Scopes

/-- Frames with other names for local variables. -/
def renameLocals (rename : String → String) (scopes : Scopes) : Scopes :=
  ⟨scopes.frames.map (Frame.renameLocals rename)⟩

variable (rename : String → String) (scopes : Scopes)

@[simp] theorem depth_renameLocals : (scopes.renameLocals rename).depth = scopes.depth := by
  simp [renameLocals, depth]

@[simp] theorem current_renameLocals : (scopes.renameLocals rename).current = scopes.current := by
  simp [renameLocals, current]

@[simp] theorem atRoot_renameLocals : (scopes.renameLocals rename).atRoot = scopes.atRoot := by
  simp [renameLocals, atRoot]

/-- Each frame has its own names renamed. -/
theorem frame_renameLocals (index : Nat) :
    (scopes.renameLocals rename).frame index = (scopes.frame index).renameLocals rename := by
  by_cases h : index < scopes.frames.size
  · simp [renameLocals, frame, h]
  · simp [renameLocals, frame, h]
    rfl

/-- To open a frame under other names is to rename in it what it is opened with. -/
theorem pushFrame_renameLocals (frame : Frame) :
    (scopes.renameLocals rename).pushFrame (frame.renameLocals rename) =
      (scopes.pushFrame frame).renameLocals rename := by
  simp [renameLocals, pushFrame]

theorem push_renameLocals :
    (scopes.renameLocals rename).push = scopes.push.renameLocals rename := by
  rw [push_eq_pushFrame, push_eq_pushFrame, current_renameLocals, ← pushFrame_renameLocals]
  rfl

theorem pop_renameLocals : (scopes.renameLocals rename).pop = scopes.pop.renameLocals rename := by
  simp [renameLocals, pop]

theorem chainFrom_renameLocals (bound index : Nat) :
    (scopes.renameLocals rename).chainFrom bound index = scopes.chainFrom bound index := by
  induction bound generalizing index with
  | zero =>
      rfl
  | succ bound ih =>
      simp only [chainFrom, frame_renameLocals, Frame.renameLocals, ih]

/-- Links between frames do not depend on names. -/
theorem chain_renameLocals : (scopes.renameLocals rename).chain = scopes.chain := by
  unfold chain
  rw [depth_renameLocals, current_renameLocals, chainFrom_renameLocals]

variable {rename} (hrename : Function.Injective rename)
include hrename

/-- Parameters are bound under their other names in the frame of a call. -/
theorem pushBound_renameLocals (bindings : List (String × Value)) :
    (scopes.renameLocals rename).pushBound (bindings.map (Prod.map rename id)) =
      (scopes.pushBound bindings).renameLocals rename := by
  unfold pushBound
  rw [← pushFrame_renameLocals, Frame.renameLocals, ← Table.insertAll_mapNames hrename]
  rfl

/-- The frame that has a name is the one that had it under the old name. -/
theorem owner?_renameLocals (name : String) :
    (scopes.renameLocals rename).owner? (rename name) = scopes.owner? name := by
  unfold owner?
  simp only [chain_renameLocals, frame_renameLocals, Frame.renameLocals,
    Table.contains_mapNames hrename]

/-- A local variable has the value that it had under the old name. -/
theorem lookup?_renameLocals (name : String) :
    (scopes.renameLocals rename).lookup? (rename name) = scopes.lookup? name := by
  unfold lookup?
  rw [owner?_renameLocals scopes hrename]
  congr 1
  funext index
  rw [frame_renameLocals]
  exact Table.find_map_name hrename name _

theorem bindAt_renameLocals (index : Nat) (name : String) (value : Value) :
    (scopes.renameLocals rename).bindAt index (rename name) value =
      (scopes.bindAt index name value).renameLocals rename := by
  unfold bindAt
  rw [frame_renameLocals]
  simp [renameLocals, Frame.renameLocals, Table.insert_mapNames hrename]

/-- A local variable is set in the frame where it was under the old name. -/
theorem assign_renameLocals (name : String) (value : Value) :
    (scopes.renameLocals rename).assign (rename name) value =
      (scopes.assign name value).renameLocals rename := by
  unfold assign
  rw [owner?_renameLocals scopes hrename, current_renameLocals, bindAt_renameLocals scopes hrename]

end Scopes

/-- A function with other names for its local variables. -/
def Function.renameLocals {H : Type} (rename : String → String) : Function H → Function H
  | .native run => .native run
  | .user params body => .user (params.renameLocals rename) (body.renameLocals rename)

/-- A session in which local variables have other names. -/
def Session.renameLocals {H : Type} (rename : String → String) (s : Session H) : Session H :=
  { s with
    scopes := s.scopes.renameLocals rename
    functions := s.functions.mapValues (Function.renameLocals rename) }

/-- A session stays as it is if all names stay. -/
theorem Session.renameLocals_id {H : Type} (s : Session H) : s.renameLocals id = s := by
  have hframe : Frame.renameLocals id = id := by
    funext frame
    simp [Frame.renameLocals, Table.mapNames]
  have hfunction : (Function.renameLocals id : Function H → Function H) = id := by
    funext function
    cases function with
    | native run =>
        rfl
    | user params body =>
        rw [Function.renameLocals, Params.renameLocals_id, Node.renameLocals_id, id]
  simp [Session.renameLocals, Scopes.renameLocals, Table.mapValues, hframe, hfunction]

/-- Arguments are bound to the new names as they were to the old ones. -/
theorem Eval.bindArguments_renameLocals
    (rename : String → String) (function : String) (args : List Value) (params : Params) :
    bindArguments function args (params.renameLocals rename) =
      (bindArguments function args params).map (List.map (Prod.map rename id)) := by
  cases params with
  | variadic name =>
      rfl
  | fixed names =>
      simp only [Params.renameLocals, bindArguments, List.length_map]
      split
      · rw [List.zip_map_left]
        rfl
      · rfl

/-- The case that is chosen does not depend on local names. -/
theorem Eval.chooseCase_renameLocals
    (rename : String → String) (v : Value) (cases : List (String × Node)) :
    chooseCase v (Node.renameCases rename cases) =
      (chooseCase v cases).map (Node.renameLocals rename) := by
  unfold chooseCase
  rw [Node.renameCases_eq_map, Table.find_map_value, Table.find_map_value]
  cases Table.find v.text cases <;> rfl

end DocScript
