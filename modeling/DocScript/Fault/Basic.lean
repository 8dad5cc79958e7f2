import DocScript.Node.Malformed

/-!
# Faults

Everything that can go wrong is a cause with the data it is about. Causes are
grouped by where they arise: reading a file, loading a unit, evaluating a
program, reading settings, misusing the shell. A cause has a kind, which is a
short name for the user, and a message.
-/

namespace DocScript

/-- What goes wrong with a file or a console. -/
inductive IoFault where
  | notFound
  | notDirectory
  | isDirectory
  | nameTooLong
  | notUtf8
  | nulInPath
  /-- A fault that the host gives in its own words. -/
  | host (text : String)
deriving DecidableEq

/-- The wording of a file or console fault. -/
def IoFault.message : IoFault → String
  | .notFound => "No such file or directory (os error 2)"
  | .notDirectory => "Not a directory (os error 20)"
  | .isDirectory => "Is a directory (os error 21)"
  | .nameTooLong => "File name too long (os error 36)"
  | .notUtf8 => "stream did not contain valid UTF-8"
  | .nulInPath => "file name contained an unexpected NUL byte"
  | .host text => text

/-- Why a unit has no text. -/
inductive LoadFault where
  | notFound (reference : String)
  | unreadable (path : String) (source : IoFault)
  /--
  The extension of units, which would have to be added, is not part of a file name. This
  is a defect of the setup, at which the program stops without a report.
  -/
  | unfitExtension (extension : String)
deriving DecidableEq

/-- The wording of a loading fault. -/
def LoadFault.message : LoadFault → String
  | .notFound reference => s!"unit '{reference}' not found"
  | .unreadable path source => s!"failed to read '{path}': {source.message}"
  | .unfitExtension extension => s!"extension '{extension}' contains a slash"

/-- Why an evaluation fails. -/
inductive EvalFault where
  | undefinedGlobal (name : String)
  | unboundLocal (name : String)
  | rootFrame
  | unknownFunction (name : String)
  | unknownProgram (name : String)
  | arity (function : String) (expected actual : Nat)
  | mismatch (operands : Mismatch)
  | importFailed (reference : String) (source : LoadFault)
  | invalidUnit (reference : String) (source : Malformed)
  | malformed (source : Malformed)
  | native (function message : String)
  | output (source : IoFault)
  | callLimit (limit : Nat)
deriving DecidableEq

/-- The wording of an evaluation fault. -/
def EvalFault.message : EvalFault → String
  | .undefinedGlobal name => s!"global variable '{name}' is not defined"
  | .unboundLocal name => s!"local variable '{name}' is not defined"
  | .rootFrame => "cannot exit the root scope"
  | .unknownFunction name => s!"function '{name}' is not defined"
  | .unknownProgram name => s!"program '{name}' is not loaded"
  | .arity function expected actual =>
      s!"Function {function} expected {expected} arguments, but got {actual}"
  | .mismatch operands =>
      s!"operator '{operands.operator.sign}' cannot be applied to "
        ++ s!"{operands.left.text} and {operands.right.text}"
  | .importFailed reference source => s!"cannot import '{reference}': {source.message}"
  | .invalidUnit reference source => s!"unit '{reference}' is malformed: {source.message}"
  | .malformed source => source.message
  | .native function message => s!"native function '{function}' failed: {message}"
  | .output source => s!"output error: {source.message}"
  | .callLimit limit => s!"maximum call depth of {limit} exceeded"

/-- Why settings cannot be had. -/
inductive SettingsFault where
  | unreadableText
  | unreadableFile
  | noFile (path : String)
deriving DecidableEq

/-- The wording of a settings fault. -/
def SettingsFault.message : SettingsFault → String
  | .unreadableText => "Failed to parse config"
  | .unreadableFile => "Failed to parse config file"
  | .noFile path => s!"Failed to open config file {path}"

/-- How a shell command is misused. -/
inductive UsageFault where
  | unknownKey (key : String)
  | env
  | envSet
  | var
  | load
  | runProg
  | run
deriving DecidableEq

/-- The wording of a misuse. -/
def UsageFault.message : UsageFault → String
  | .unknownKey key => s!"unknown env key '{key}'"
  | .env => "usage: env [get|set KEY [VALUE]]"
  | .envSet => "usage: env set KEY VALUE"
  | .var => "usage: var [get|set NAME [VALUE]]"
  | .load => "usage: load PATH"
  | .runProg => "usage: run_prog NAME"
  | .run => "usage: run FUNC [JSON ...]"

/-- Any fault. -/
inductive Fault where
  | eval (source : EvalFault)
  | malformed (source : Malformed)
  | load (source : LoadFault)
  | settings (source : SettingsFault)
  | usage (source : UsageFault)
  | io (source : IoFault)
deriving DecidableEq

/-- The kinds of faults. -/
inductive Kind where
  | lookup
  | arity
  | shape
  | unknownConstruct
  | type
  | runtime
  | settings
  | usage
  | io
deriving DecidableEq

/-- The name of a kind. -/
def Kind.text : Kind → String
  | .lookup => "LookupError"
  | .arity => "ArityError"
  | .shape => "ShapeError"
  | .unknownConstruct => "UnknownConstructError"
  | .type => "TypeError"
  | .runtime => "RuntimeError"
  | .settings => "ConfigError"
  | .usage => "UsageError"
  | .io => "IOError"

/-- The kind of a refused document. -/
def Malformed.kind : Malformed → Kind
  | .shape _ _ => .shape
  | .notJson _ => .shape
  | .unknown _ => .unknownConstruct

/-- The kind of an evaluation fault. -/
def EvalFault.kind : EvalFault → Kind
  | .undefinedGlobal _ => .lookup
  | .unboundLocal _ => .lookup
  | .rootFrame => .runtime
  | .unknownFunction _ => .lookup
  | .unknownProgram _ => .lookup
  | .arity _ _ _ => .arity
  | .mismatch _ => .type
  | .importFailed _ _ => .lookup
  | .invalidUnit _ source => source.kind
  | .malformed source => source.kind
  | .native _ _ => .runtime
  | .output _ => .runtime
  | .callLimit _ => .runtime

namespace Fault

/-- The kind of a fault. -/
def kind : Fault → Kind
  | .eval source => source.kind
  | .malformed source => source.kind
  | .load _ => .lookup
  | .settings _ => .settings
  | .usage _ => .usage
  | .io _ => .io

/-- The wording of a fault. -/
def message : Fault → String
  | .eval source => source.message
  | .malformed source => source.message
  | .load source => source.message
  | .settings source => source.message
  | .usage source => source.message
  | .io source => source.message

/--
Whether a fault lies in how the program was set up and not in what it was given
to do, so that going on makes no sense.
-/
def isDefect : Fault → Bool
  | .eval (.importFailed _ (.unfitExtension _)) => true
  | .load (.unfitExtension _) => true
  | _ => false

/-- A fault as it is shown to the user. -/
def report (fault : Fault) : String :=
  s!"ERROR: {fault.kind.text}: {fault.message}"

end Fault
end DocScript
