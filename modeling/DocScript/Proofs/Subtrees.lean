import DocScript.Node.Basic

/-!
# Trees within trees

A program tree has parts, which its evaluation may go on with, and a definition of a
function has code, which is kept for later. A document has the items of a list or the
values of an object.

`Everywhere` says that a property holds of a tree and of all trees within it, at any
depth. It is stated once for program trees and documents.
-/

namespace DocScript

/-- A property of a tree and of all trees below it. -/
inductive Everywhere {α : Type} (children : α → List α) (P : α → Prop) : α → Prop
  | intro {tree : α}
      (here : P tree)
      (below : ∀ child ∈ children tree, Everywhere children P child) :
      Everywhere children P tree

namespace Everywhere

variable {α : Type} {children : α → List α} {P : α → Prop} {tree child : α}

/-- There is nothing below a tree without children. -/
theorem leaf (here : P tree) (hnone : children tree = []) : Everywhere children P tree := by
  refine .intro here ?_
  rw [hnone]
  exact List.forall_mem_nil _

theorem here (h : Everywhere children P tree) : P tree := by
  cases h with
  | intro here _ =>
      exact here

theorem of_mem (h : Everywhere children P tree) (hchild : child ∈ children tree) :
    Everywhere children P child := by
  cases h with
  | intro _ below =>
      exact below child hchild

end Everywhere

namespace Node

/-- The trees that the evaluation of a tree may go on with. -/
def parts : Node → List Node
  | .block nodes => nodes
  | .localVar _ value => value.toList
  | .set _ value => [value]
  | .setLocal _ value => [value]
  | .branch condition thenBranch elseBranch => condition :: thenBranch :: elseBranch.toList
  | .forLoop init condition step code => [init, condition, step, code]
  | .whileLoop condition code => [condition, code]
  | .switch value cases => value :: cases.map Prod.snd
  | .call _ args => args
  | .ret value => [value]
  | .list items => items
  | .operation _ operands => operands
  | .literal _ | .var _ | .define _ _ _ | .imports _ | .comment => []

/-- The trees directly within a tree: its parts, or the code of the function it defines. -/
def children : Node → List Node
  | .define _ _ code => [code]
  | node => node.parts

/-- What a construct evaluates is a subtree of it. -/
theorem mem_children_of_mem_parts {node part : Node} (hpart : part ∈ node.parts) :
    part ∈ node.children := by
  cases node with
  | define name params code =>
      cases hpart
  | _ =>
      exact hpart

end Node

/-- The documents directly within a document. -/
def Json.children : Json → List Json
  | .array items => items
  | .object members => members.map Prod.snd
  | _ => []

/-- The children of an object are the values of its members. -/
theorem Json.everywhere_object {J : Json → Prop} {members : List (String × Json)}
    (here : J (.object members))
    (hmembers : ∀ member ∈ members, Everywhere Json.children J member.2) :
    Everywhere Json.children J (.object members) := by
  refine .intro here ?_
  intro item hitem
  obtain ⟨member, hmember, rfl⟩ := List.mem_map.mp hitem
  exact hmembers member hmember

end DocScript
