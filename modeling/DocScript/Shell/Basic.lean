import DocScript.Fault.Detail
import DocScript.Session.Requests
import DocScript.Settings
import DocScript.Shell.Command
import DocScript.Text.Words

/-!
# The shell

The shell works on a session line by line. A line is blank, a command, or a
statement in JSON. `perform` says what a line does to the session and what is to
be replied; `execute` writes the reply; `settle` reports a fault to the user in
place of a reply, so that the session goes on; `handle` does both. The only fault
that `handle` gives back is one of the console that replies go to.
-/

namespace DocScript

/-- A shell: its session, its environment, and the disk that units are loaded from. -/
structure Shell (H : Type) where
  session : Session H
  env : Table String
  disk : Disk

namespace Shell

/-- Whether the shell goes on after a line. -/
inductive Action where
  | continue
  | quit
deriving DecidableEq

/-- The version of the program. -/
def version : String := "0.1.2"

/-- The line that names the program. -/
def banner : String := "JsonLang v" ++ version

/-- The lines that explain the shell. -/
def helpLines : List String :=
  [banner, "Interpreter for JsonLang. Type json to execute it",
    "Available commands: " ++ " ".intercalate (Command.all.map Command.name)]

/-- The text of a flag. -/
def flagText (flag : Bool) : String :=
  if flag then "true" else "false"

section

variable {H : Type}

/-- A shell on a session. -/
def start (session : Session H) (disk : Disk) (settings : ShellSettings) : Shell H where
  session := session
  disk := disk
  env := ⟨[("version", version), ("prompt", settings.prompt),
    ("colors", flagText settings.colors), ("debug", flagText settings.debug)]⟩

/-- Whether a flag of the environment is set. -/
def flag (shell : Shell H) (key : String) : Bool :=
  shell.env.get? key = some "true"

/-- The prompt of the environment. -/
def prompt (shell : Shell H) : String :=
  (shell.env.get? "prompt").getD ""

/-- What a line comes to: an action with lines to reply, or a fault. -/
abbrev Performed (H : Type) :=
  Option (Except Fault (Action × List String) × Shell H)

/-- Goes on with some lines to reply. -/
def reply (lines : List String) (shell : Shell H) : Performed H :=
  some (.ok (.continue, lines), shell)

/-- Ends with a fault. -/
def refuse (fault : Fault) (shell : Shell H) : Performed H :=
  some (.error fault, shell)

/-- The lines that show a value; null is not shown. -/
def valueLines : Value → List String
  | .null => []
  | value => [value.text]

/-- Replies with the value that a request to the session is answered with. -/
def showAnswer (answer : Answer H Value) (shell : Shell H) : Performed H :=
  match answer with
  | none => none
  | some (.ok value, session) => reply (valueLines value) { shell with session }
  | some (.error fault, session) => refuse fault { shell with session }

/-- Shows or changes the environment. -/
def performEnv (args : List String) (shell : Shell H) : Performed H :=
  match args with
  | [] | ["get"] => reply (shell.env.sorted.map fun (key, value) => key ++ ": " ++ value) shell
  | ["get", key] =>
      match shell.env.get? key with
      | some value => reply [value] shell
      | none => refuse (.usage (.unknownKey key)) shell
  | "set" :: key :: first :: rest =>
      reply [] { shell with env := shell.env.insert key (" ".intercalate (first :: rest)) }
  | "set" :: _ => refuse (.usage .envSet) shell
  | _ => refuse (.usage .env) shell

/-- Sets a global variable to what a document evaluates to. -/
def performSet (fuel : Nat) (name json : String) (shell : Shell H) : Performed H :=
  match Json.read json with
  | .error fault => refuse (.malformed (.notJson fault)) shell
  | .ok document =>
      match shell.session.evalDocument fuel document with
      | none => none
      | some (.error fault, session) => refuse fault { shell with session }
      | some (.ok value, session) =>
          reply [] { shell with session := session.setGlobal name value }

/-- Shows or changes global variables. -/
def performVar (fuel : Nat) (rest : List Char) (shell : Shell H) : Performed H :=
  let (action, rest) := Text.splitWord rest
  let (name, json) := Text.splitWord rest
  let name := String.ofList name
  let json := String.ofList json
  match String.ofList action with
  | "" =>
      reply (shell.session.globals.sorted.map fun (name, value) => name ++ ": " ++ value.text)
        shell
  | "get" =>
      if name ≠ "" ∧ json = "" then
        match shell.session.getGlobal name with
        | .ok value => reply [name ++ ": " ++ value.text] shell
        | .error fault => refuse (.eval fault) shell
      else refuse (.usage .var) shell
  | "set" =>
      if name ≠ "" ∧ json ≠ "" then performSet fuel name json shell
      else refuse (.usage .var) shell
  | _ => refuse (.usage .var) shell

/-- One line on a unit. -/
def programLine (program : Program) : String :=
  s!"{program.name}: {program.statements.length} statements, imports "
    ++ "[" ++ ", ".intercalate program.imports ++ "]"

/-- Loads a unit from a file. -/
def performLoad (args : List String) (shell : Shell H) : Performed H :=
  match args with
  | [path] =>
      match shell.session.loadFile shell.disk path with
      | (.ok name, session) => reply ["loaded program " ++ name] { shell with session }
      | (.error fault, session) => refuse fault { shell with session }
  | _ => refuse (.usage .load) shell

/--
Evaluates the documents of a text one after the other; each is evaluated before
the next is read. `whole` is the text from its start on, and there are at most
`rounds` documents.
-/
def arguments (fuel : Nat) (whole : Json.Bytes) :
    Nat → Json.Bytes → Session H → Answer H (List Value)
  | 0, _, s => some (.ok [], s)
  | rounds + 1, text, s =>
      match Json.next text with
      | .error stop => some (.error (.malformed (.notJson (stop.toFault whole))), s)
      | .ok none => some (.ok [], s)
      | .ok (some (document, rest)) =>
          match s.evalDocument fuel document with
          | none => none
          | some (.error fault, s) => some (.error fault, s)
          | some (.ok value, s) =>
              match arguments fuel whole rounds rest s with
              | none => none
              | some (.error fault, s) => some (.error fault, s)
              | some (.ok values, s) => some (.ok (value :: values), s)

/-- Calls a function with the documents of a text as arguments. -/
def performRun (fuel : Nat) (rest : List Char) (shell : Shell H) : Performed H :=
  let (name, json) := Text.splitWord rest
  let name := String.ofList name
  let text := Json.bytesOf (String.ofList json)
  if name = "" then refuse (.usage .run) shell
  else
    match arguments fuel text (text.length + 1) text shell.session with
    | none => none
    | some (.error fault, session) => refuse fault { shell with session }
    | some (.ok args, session) => showAnswer (session.invoke fuel name args) shell

/-- What a command does, given the rest of its line. -/
def performCommand (fuel : Nat) (command : Command) (rest : List Char) (shell : Shell H) :
    Performed H :=
  let args := (Text.words rest).map String.ofList
  match command with
  | .quit => some (.ok (.quit, []), shell)
  | .help => reply helpLines shell
  | .reset => reply [] { shell with session := shell.session.reset }
  | .env => performEnv args shell
  | .var => performVar fuel rest shell
  | .locals => reply [(Value.map shell.session.scopes.visible.sorted).text] shell
  | .func =>
      reply
        (shell.session.functions.sorted.map fun (name, function) =>
          name ++ "(" ++ function.signature ++ ")")
        shell
  | .list => reply (shell.session.programs.sorted.map fun (_, program) => programLine program) shell
  | .load => performLoad args shell
  | .runProg =>
      if args.isEmpty then refuse (.usage .runProg) shell
      else showAnswer (shell.session.runProgram fuel (" ".intercalate args)) shell
  | .run => performRun fuel rest shell

/-- What a line does. -/
def perform (fuel : Nat) (line : String) (shell : Shell H) : Performed H :=
  let (first, rest) := Text.splitWord line.toList
  if first.isEmpty then reply [] shell
  else
    match Command.ofName? (String.ofList first) with
    | some command => performCommand fuel command rest shell
    | none => showAnswer (shell.session.runStatement fuel line) shell

/-- Writes lines to a console, until one fails to be written. -/
def say (console : Console H) : List String → Shell H → Except IoFault Unit × Shell H
  | [], shell => (.ok (), shell)
  | line :: rest, shell =>
      match console.write (line ++ "\n") shell.session.host with
      | (.error fault, host) =>
          (.error fault, { shell with session := { shell.session with host } })
      | (.ok _, host) =>
          say console rest { shell with session := { shell.session with host } }

/-- Performs a line and writes the reply. -/
def execute (fuel : Nat) (console : Console H) (line : String) (shell : Shell H) :
    Option (Except Fault Action × Shell H) :=
  match shell.perform fuel line with
  | none => none
  | some (.error fault, shell) => some (.error fault, shell)
  | some (.ok (action, lines), shell) =>
      match say console lines shell with
      | (.ok _, shell) => some (.ok action, shell)
      | (.error fault, shell) => some (.error (.io fault), shell)

/-- A text in red. -/
def red (text : String) : String :=
  "\x1b[31m" ++ text ++ "\x1b[0m"

/-- The lines that report a fault. -/
def faultLines (fault : Fault) (shell : Shell H) : List String :=
  (if shell.flag "colors" then red fault.report else fault.report)
    :: if shell.flag "debug" then [fault.detail] else []

/--
Writes a report of what went wrong with a line, after which the shell goes on. There
is nobody to report a fault of the console to, and a defect is not reported.
-/
def settle (console : Console H) :
    Except Fault Action → Shell H → Except Fault Action × Shell H
  | .ok action, shell => (.ok action, shell)
  | .error (.io fault), shell => (.error (.io fault), shell)
  | .error fault, shell =>
      if fault.isDefect then (.error fault, shell)
      else
        match say console (faultLines fault shell) shell with
        | (.ok _, shell) => (.ok .continue, shell)
        | (.error fault, shell) => (.error (.io fault), shell)

/-- Performs a line and writes the reply, or a report of what went wrong. -/
def respond (fuel : Nat) (console : Console H) (line : String) (shell : Shell H) :
    Option (Except Fault Action × Shell H) :=
  (shell.execute fuel console line).map fun (result, shell) => settle console result shell

/-- What the caller of the shell gets back, unless a defect has stopped the program. -/
def returned? : Except Fault Action × Shell H → Option (Except IoFault Action × Shell H)
  | (.ok action, shell) => some (.ok action, shell)
  | (.error (.io fault), shell) => some (.error fault, shell)
  | (.error _, _) => none

/--
Handles a line. The caller gets nothing back where an evaluation does not finish, and
where a defect stops the program.
-/
def handle (fuel : Nat) (console : Console H) (line : String) (shell : Shell H) :
    Option (Except IoFault Action × Shell H) :=
  (shell.respond fuel console line).bind returned?

end

end Shell
end DocScript
