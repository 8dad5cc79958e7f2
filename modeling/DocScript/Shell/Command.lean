/-!
# Shell commands

A line of the shell is a command when its first word names one.
-/

namespace DocScript
namespace Shell

/-- The commands of the shell. -/
inductive Command where
  | quit
  | help
  | reset
  | env
  | var
  | locals
  | func
  | list
  | load
  | runProg
  | run
deriving DecidableEq

namespace Command

/-- All commands, in the order in which they are listed to the user. -/
def all : List Command :=
  [.quit, .help, .reset, .env, .var, .locals, .func, .list, .load, .runProg, .run]

/-- The name of a command. -/
def name : Command → String
  | .quit => "quit"
  | .help => "help"
  | .reset => "reset"
  | .env => "env"
  | .var => "var"
  | .locals => "locals"
  | .func => "func"
  | .list => "list"
  | .load => "load"
  | .runProg => "run_prog"
  | .run => "run"

/-- The command of a given name. -/
def ofName? (name : String) : Option Command :=
  all.find? fun command => command.name = name

/-- A command is found under its name. -/
theorem ofName?_name (command : Command) : ofName? command.name = some command := by
  cases command <;> decide

end Command
end Shell
end DocScript
