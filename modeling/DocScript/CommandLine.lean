import DocScript.Shell.Basic

/-!
# The command line

The program runs one file, or feeds the lines of its input to a shell. Output of
programs and replies of the shell go to the same place, in order. The program
ends with the status 0, with 2 when its arguments or settings cannot be read, and
with 1 when anything else goes wrong. A defect of its setup stops it at once,
with a status of its own and nothing more to say.
-/

namespace DocScript
namespace CommandLine

/-- What the command line asks for. Each part is given at most once. -/
structure Options where
  file : Option String := none
  config : Option String := none
  verbose : Bool := false

namespace Options

/-- The path of the settings. -/
def settingsPath (options : Options) : String :=
  options.config.getD "jsonlang.json"

/-- Takes the file to run, which is not empty. -/
def withFile? (options : Options) (path : String) : Option Options :=
  if options.file.isNone && !path.isEmpty then some { options with file := some path } else none

/-- Takes the path of the settings, which is not empty. -/
def withConfig? (options : Options) (path : String) : Option Options :=
  if options.config.isNone && !path.isEmpty then some { options with config := some path } else none

/-- Takes the wish for more log lines. -/
def withVerbose? (options : Options) : Option Options :=
  if options.verbose then none else some { options with verbose := true }

end Options

/-- How a run ends. -/
structure Result where
  status : UInt32
  output : String
  /-- What went wrong, if anything did. -/
  fault : Option Fault

/-- The text after the letters that an argument starts with. -/
def afterStart? : List Char → List Char → Option (List Char)
  | [], rest => some rest
  | _ :: _, [] => none
  | c :: start, d :: rest => if c = d then afterStart? start rest else none

/--
Reads the letters after a single dash. The second part of the result tells
whether the next argument is the path that a letter asks for.
-/
def letters (options : Options) : List Char → Option (Options × Bool)
  | [] => some (options, false)
  | 'v' :: rest => options.withVerbose?.bind (letters · rest)
  | ['c'] => some (options, true)
  | 'c' :: '=' :: path => (options.withConfig? (String.ofList path)).map (·, false)
  | 'c' :: path => (options.withConfig? (String.ofList path)).map (·, false)
  | _ => none

/-- Reads the name after a double dash, with a result as for letters. -/
def word (options : Options) (name : List Char) : Option (Options × Bool) :=
  if name = "verbose".toList then options.withVerbose?.map (·, false)
  else if name = "config".toList then some (options, true)
  else
    (afterStart? "config=".toList name).bind fun path =>
      (options.withConfig? (String.ofList path)).map (·, false)

/-- What an argument looks like. -/
inductive Argument where
  | path
  | endOfOptions
  | letters (chars : List Char)
  | word (name : List Char)

/-- Tells what an argument looks like. A lone dash is a path. -/
def Argument.ofText (arg : String) : Argument :=
  match arg.toList with
  | ['-'] => .path
  | ['-', '-'] => .endOfOptions
  | '-' :: '-' :: name => .word name
  | '-' :: chars => .letters chars
  | _ => .path

/--
Reads arguments before a double dash. When a path is asked for, the next
argument has to look like one.
-/
def parse (options : Options) (asksPath : Bool) : List String → Option Options
  | [] => if asksPath then none else some options
  | arg :: rest =>
      match asksPath, Argument.ofText arg with
      | true, .path => (options.withConfig? arg).bind (parse · false rest)
      | true, _ => none
      | false, .path => (options.withFile? arg).bind (parse · false rest)
      | false, .endOfOptions => rest.foldlM Options.withFile? options
      | false, .letters chars =>
          (letters options chars).bind fun (options, asksPath) => parse options asksPath rest
      | false, .word name =>
          (word options name).bind fun (options, asksPath) => parse options asksPath rest

/-- Reads all arguments. After a double dash each of them is a file. -/
def Options.ofArguments? (args : List String) : Option Options :=
  parse {} false args

/-- The console of a run, whose host is the output so far. -/
def console : Console String where
  write text output := (.ok (), output ++ text)
  flush output := (.ok (), output)

/-- The session of a run. -/
def session (settings : Settings) (disk : Disk) : Session String where
  host := ""
  console := console
  loader := settings.loader disk
  maxCallDepth := settings.maxCallDepth

/--
Cuts input into lines. A line ends with a line feed, before which a carriage
return is dropped.
-/
def linesFrom (line : Json.Bytes) : Json.Bytes → List Json.Bytes
  | [] => if line.isEmpty then [] else [line.reverse]
  | b :: rest =>
      if b = Json.Byte.lineFeed then
        match line with
        | Json.Byte.carriageReturn :: line => line.reverse :: linesFrom [] rest
        | line => line.reverse :: linesFrom [] rest
      else linesFrom (b :: line) rest

/-- How a run that a fault stops ends. -/
def Result.ofFault (fault : Fault) (output : String) : Result :=
  if fault.isDefect then ⟨101, output, none⟩ else ⟨1, output, some fault⟩

/-- Goes on after a line, unless the shell quits, cannot reply, or meets with a defect. -/
def afterLine : Except Fault Shell.Action × Shell String → Except Result (Shell String)
  | (.error fault, shell) => .error (.ofFault fault shell.session.host)
  | (.ok .quit, shell) => .error ⟨0, shell.session.host, none⟩
  | (.ok .continue, shell) => .ok shell

/-- Feeds one line to a shell. The run goes on with a shell, or ends with a result. -/
def feedLine (fuel : Nat) (shell : Shell String) (line : String) :
    Option (Except Result (Shell String)) :=
  (shell.respond fuel console line).map afterLine

/-- Feeds lines to a shell until one ends the run. -/
def feed (fuel : Nat) (shell : Shell String) : List Json.Bytes → Option Result
  | [] => some ⟨0, shell.session.host, none⟩
  | line :: rest =>
      match Json.StringLiteral.decode? line with
      | none => some (.ofFault (.io .notUtf8) shell.session.host)
      | some line =>
          match feedLine fuel shell line with
          | none => none
          | some (.error result) => some result
          | some (.ok shell) => feed fuel shell rest

/-- Runs the unit in a file. -/
def runFile (fuel : Nat) (disk : Disk) (path : String) (s : Session String) : Option Result :=
  match s.loadFile disk path with
  | (.error fault, s) => some (.ofFault fault s.host)
  | (.ok name, s) =>
      match s.runProgram fuel name with
      | none => none
      | some (.ok _, s) => some ⟨0, s.host, none⟩
      | some (.error fault, s) => some (.ofFault fault s.host)

/-- Runs what the options ask for. -/
def run (fuel : Nat) (disk : Disk) (options : Options) (input : Json.Bytes) : Option Result :=
  match Settings.ofFileOrDefault disk (some options.settingsPath) with
  | .error fault => some ⟨2, "", some fault⟩
  | .ok settings =>
      let s := session settings disk
      match options.file with
      | some path => runFile fuel disk path s
      | none => feed fuel (Shell.start s disk settings.shell) (linesFrom [] input)

/-- Runs the program on its arguments. -/
def runArguments (fuel : Nat) (disk : Disk) (args : List String) (input : Json.Bytes) :
    Option Result :=
  match Options.ofArguments? args with
  | none => some ⟨2, "", none⟩
  | some options => run fuel disk options input

end CommandLine
end DocScript
