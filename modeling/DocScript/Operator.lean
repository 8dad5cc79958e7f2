import DocScript.Value.Basic

/-!
# Operators

An operator has a sign and a word, and combines two values. Over a list of
operands it is folded from the left, so a comparison of three operands compares
the boolean of the first two with the third.
-/

namespace DocScript

/-- The operators. -/
inductive Operator where
  | add
  | sub
  | mul
  | div
  | eq
  | ne
  | lt
  | gt
  | and
  | or
deriving DecidableEq

/-- Operands that an operator cannot combine. -/
structure Mismatch where
  operator : Operator
  left : ValueType
  right : ValueType
deriving DecidableEq

namespace Operator

/-- All operators. -/
def all : List Operator :=
  [.add, .sub, .mul, .div, .eq, .ne, .lt, .gt, .and, .or]

/-- The sign of an operator, which is its name where one has to be given. -/
def sign : Operator → String
  | .add => "+"
  | .sub => "-"
  | .mul => "*"
  | .div => "/"
  | .eq => "=="
  | .ne => "!="
  | .lt => "<"
  | .gt => ">"
  | .and => "&&"
  | .or => "||"

/-- The word for an operator. -/
def word : Operator → String
  | .add => "add"
  | .sub => "sub"
  | .mul => "mul"
  | .div => "div"
  | .eq => "eq"
  | .ne => "ne"
  | .lt => "lt"
  | .gt => "gt"
  | .and => "and"
  | .or => "or"

/-- The operator of a given sign or word. -/
def ofName? (name : String) : Option Operator :=
  all.find? fun op => op.sign = name || op.word = name

/-- Combines two values. -/
def apply (op : Operator) (left right : Value) : Except Mismatch Value :=
  let mismatch : Except Mismatch Value := .error ⟨op, left.type, right.type⟩
  match op with
  | .add =>
      match left, right with
      | .number x, .number y => .ok (.number (x + y))
      | .string a, .string b => .ok (.string (a ++ b))
      | .list as, .list bs => .ok (.list (as ++ bs))
      | _, _ => mismatch
  | .sub =>
      match left, right with
      | .number x, .number y => .ok (.number (x - y))
      | _, _ => mismatch
  | .mul =>
      match left, right with
      | .number x, .number y => .ok (.number (x * y))
      | _, _ => mismatch
  | .div =>
      match left, right with
      | .number x, .number y => .ok (.number (x / y))
      | _, _ => mismatch
  | .eq => .ok (.boolean (left.looseEq right))
  | .ne => .ok (.boolean (!left.looseEq right))
  | .lt =>
      match left.order right with
      | some ordering => .ok (.boolean ordering.isLT)
      | none => mismatch
  | .gt =>
      match left.order right with
      | some ordering => .ok (.boolean ordering.isGT)
      | none => mismatch
  | .and => .ok (.boolean (left.truthy && right.truthy))
  | .or => .ok (.boolean (left.truthy || right.truthy))

/-- Combines operands from the left, starting with a given one. -/
def fold (op : Operator) (start : Value) : List Value → Except Mismatch Value
  | [] => .ok start
  | operand :: rest =>
      match op.apply start operand with
      | .ok combined => fold op combined rest
      | .error mismatch => .error mismatch

@[simp] theorem fold_nil (op : Operator) (start : Value) : op.fold start [] = .ok start := rfl

/-- Both names of an operator lead back to it. -/
theorem ofName?_sign (op : Operator) : ofName? op.sign = some op := by
  cases op <;> decide

/-- An operator is found under its word. -/
theorem ofName?_word (op : Operator) : ofName? op.word = some op := by
  cases op <;> decide

end Operator
end DocScript
