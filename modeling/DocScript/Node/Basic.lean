import DocScript.Operator

/-!
# Program trees

A program is a tree of constructs. A construct is named by a keyword or an
operator; literals, blocks and comments need no other parts. A unit of program
text holds a name, initial values of global variables, the units it imports and
its statements.
-/

namespace DocScript

/-- The keywords that name constructs. -/
inductive Keyword where
  | var
  | local
  | set
  | setLocal
  | if
  | for
  | while
  | switch
  | define
  | call
  | return
  | imports
  | list
  | comment
deriving DecidableEq

namespace Keyword

/-- All keywords. -/
def all : List Keyword :=
  [.var, .local, .set, .setLocal, .if, .for, .while, .switch, .define, .call, .return, .imports,
    .list, .comment]

/-- The name of a keyword. -/
def name : Keyword → String
  | .var => "var"
  | .local => "local"
  | .set => "set"
  | .setLocal => "set_local"
  | .if => "if"
  | .for => "for"
  | .while => "while"
  | .switch => "switch"
  | .define => "def"
  | .call => "call"
  | .return => "return"
  | .imports => "import"
  | .list => "list"
  | .comment => "comment"

/-- A second name, which two keywords have. -/
def alias? : Keyword → Option String
  | .define => some "function"
  | .comment => some "ignore"
  | _ => none

/-- The keyword of a given name. -/
def ofName? (name : String) : Option Keyword :=
  all.find? fun keyword => keyword.name = name || keyword.alias? = some name

/-- A keyword is found under its name. -/
theorem ofName?_name (keyword : Keyword) : ofName? keyword.name = some keyword := by
  cases keyword <;> decide

end Keyword

/-- The parameters of a function. -/
inductive Params where
  /-- As many arguments as names, in order. -/
  | fixed (names : List String)
  /-- Any number of arguments, bound together as one list. -/
  | variadic (name : String)
deriving DecidableEq

/-- Parameters as the shell lists them. -/
def Params.text : Params → String
  | .fixed names => " ".intercalate names
  | .variadic name => "..." ++ name

/-- A program tree. -/
inductive Node where
  | literal (value : Value)
  | block (statements : List Node)
  | var (name : String)
  | localVar (name : String) (value : Option Node)
  | set (name : String) (value : Node)
  | setLocal (name : String) (value : Node)
  | branch (condition thenBranch : Node) (elseBranch : Option Node)
  | forLoop (init condition step code : Node)
  | whileLoop (condition code : Node)
  | switch (value : Node) (cases : List (String × Node))
  | define (name : String) (params : Params) (code : Node)
  | call (name : String) (args : List Node)
  | ret (value : Node)
  | imports (references : List String)
  | list (items : List Node)
  | operation (op : Operator) (operands : List Node)
  | comment

instance : Inhabited Node := ⟨.comment⟩

/-- A unit of program text. -/
structure Program where
  name : String
  globals : List (String × Value) := []
  imports : List String := []
  statements : List Node := []

/-- The name of a unit that does not give one. -/
def Program.defaultName : String := "program"

/-- The case that a `switch` takes when no other matches. -/
def Node.anyCase : String := "*"

/-- The parameter of a function that names none. -/
def Params.defaultName : String := "args"

end DocScript
