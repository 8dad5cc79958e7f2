import DocScript.Json.Basic

/-!
# Values

Values are what programs compute with. Numbers are floating-point numbers, maps
list their entries in increasing order of the names, and a function is held by
the name it is registered under.

There are two equalities. `same` is equality of shape, with numbers compared as
numbers: minus zero is zero, and an undefined number is not even itself.
`looseEq` is the equality that programs see: in addition a boolean meets a
number as zero or one. `order` is the order that programs see.
-/

namespace DocScript

/-- A value. -/
inductive Value where
  | null
  | boolean (b : Bool)
  | number (x : Float)
  | string (s : String)
  | list (items : List Value)
  | map (entries : List (String × Value))
  | function (name : String)

instance : Inhabited Value := ⟨.null⟩

/-- The types that values have. -/
inductive ValueType where
  | null
  | boolean
  | number
  | string
  | list
  | map
  | function
deriving DecidableEq

/-- The name of a type. -/
def ValueType.text : ValueType → String
  | .null => "null"
  | .boolean => "boolean"
  | .number => "number"
  | .string => "string"
  | .list => "list"
  | .map => "map"
  | .function => "function"

namespace Value

/-- The type of a value. -/
def type : Value → ValueType
  | .null => .null
  | .boolean _ => .boolean
  | .number _ => .number
  | .string _ => .string
  | .list _ => .list
  | .map _ => .map
  | .function _ => .function

/-- Null, false, zero and whatever is empty do not hold; all else does. -/
def truthy : Value → Bool
  | .null => false
  | .boolean b => b
  | .number x => x != 0
  | .string s => !s.isEmpty
  | .list items => !items.isEmpty
  | .map entries => !entries.isEmpty
  | .function _ => true

/-- Numbers as they are, booleans as zero and one. -/
def numeric? : Value → Option Float
  | .number x => some x
  | .boolean b => some (if b then 1 else 0)
  | _ => none

/-- The order of two numbers, absent when one is undefined. -/
def orderNumbers (x y : Float) : Option Ordering :=
  if x < y then some .lt
  else if y < x then some .gt
  else if x == y then some .eq
  else none

/--
The order of two values: texts by code points, booleans with false first,
otherwise as numbers. Absent where the pair has no order.
-/
def order : Value → Value → Option Ordering
  | .string a, .string b => some (compare a b)
  | .boolean a, .boolean b => some (compare a b)
  | a, b =>
      match a.numeric?, b.numeric? with
      | some x, some y => orderNumbers x y
      | _, _ => none

mutual

/-- Equality of shape, with numbers compared as numbers. -/
def same : Value → Value → Bool
  | .null, .null => true
  | .boolean a, .boolean b => a == b
  | .number x, .number y => x == y
  | .string a, .string b => a == b
  | .list as, .list bs => sameItems as bs
  | .map as, .map bs => sameEntries as bs
  | .function a, .function b => a == b
  | _, _ => false

/-- Items that are the same one by one. -/
def sameItems : List Value → List Value → Bool
  | [], [] => true
  | a :: as, b :: bs => same a b && sameItems as bs
  | _, _ => false

/-- Entries of the same names and the same values one by one. -/
def sameEntries : List (String × Value) → List (String × Value) → Bool
  | [], [] => true
  | (k, a) :: as, (l, b) :: bs => k == l && same a b && sameEntries as bs
  | _, _ => false

end

/-- Equality as programs see it: a boolean meets a number as zero or one. -/
def looseEq (a b : Value) : Bool :=
  match a, b with
  | .boolean p, .number y => (if p then 1 else 0 : Float) == y
  | .number x, .boolean q => x == (if q then 1 else 0 : Float)
  | _, _ => same a b

mutual

/-- The value that a document stands for. -/
def ofJson : Json → Value
  | .null => .null
  | .bool b => .boolean b
  | .number n => .number n.toFloat
  | .string s => .string s
  | .array items => .list (ofItems items)
  | .object members => .map (ofMembers members)

/-- The values that the items of a list stand for. -/
def ofItems : List Json → List Value
  | [] => []
  | item :: rest => ofJson item :: ofItems rest

/-- The entries that the members of an object stand for. -/
def ofMembers : List (String × Json) → List (String × Value)
  | [] => []
  | (name, item) :: rest => (name, ofJson item) :: ofMembers rest

end

end Value
end DocScript
