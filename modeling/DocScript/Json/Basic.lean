/-!
# JSON documents

A document is a scalar, a list or an object. Objects hold their members in
increasing order of the member names, and a name occurs once: adding a member
replaces an earlier one of the same name. A number keeps the form it was
written in, since a whole number and a real number are told apart where a
setting asks for a count.
-/

namespace DocScript

/-- A number as a document holds it. -/
inductive Json.Number where
  /-- A whole number between `-2 ^ 63` and `2 ^ 64 - 1`. -/
  | whole (n : Int)
  /-- Any other number, and minus zero. -/
  | real (x : Float)

/-- A JSON document. -/
inductive Json where
  | null
  | bool (b : Bool)
  | number (n : Json.Number)
  | string (s : String)
  | array (items : List Json)
  | object (members : List (String × Json))

namespace Json

/-- The number nearest to an unsigned 64-bit count. -/
def floatOfNat (n : Nat) : Float :=
  n.toUInt64.toFloat

/-- The number that a numeral stands for. -/
def Number.toFloat : Number → Float
  | .whole n =>
      match n with
      | .ofNat n => floatOfNat n
      | .negSucc n => -floatOfNat (n + 1)
  | .real x => x

/-- Members in increasing order of their names, with one more put in its place. -/
def insertMember {α : Type} (name : String) (item : α) :
    List (String × α) → List (String × α)
  | [] => [(name, item)]
  | (key, old) :: rest =>
      if name < key then (name, item) :: (key, old) :: rest
      else if name = key then (name, item) :: rest
      else (key, old) :: insertMember name item rest

/-- Members in increasing order of their names, from members in the order written. -/
def orderMembers {α : Type} (members : List (String × α)) : List (String × α) :=
  members.foldl (fun done (name, item) => insertMember name item done) []

end Json
end DocScript
