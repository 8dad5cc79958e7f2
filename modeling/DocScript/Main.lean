import DocScript.CommandLine

/-!
# The program

The library is pure, so files are read ahead of it: a run is made with the files
that are known, and when it asks for one that is not, that file is read and the
run is made again. As no program can catch a fault, asking for an unknown file is
always seen in the fault that a run ends with.
-/

namespace DocScript
namespace Main

/-- The words of the fault that stands for a file that has not been read yet. -/
def unreadMark : String := "\x00unread"

/-- The files that have been read. -/
abbrev Known := Table (Except IoFault Json.Bytes)

/-- The disk of the files that have been read. -/
def diskOf (known : Known) : Disk := fun path =>
  (known.get? path).getD (.error (.host unreadMark))

/-- The path of the unread file that a fault comes from. -/
def unread? : Fault → Option String
  | .load (.unreadable path (.host words)) => if words = unreadMark then some path else none
  | .eval (.importFailed _ (.unreadable path (.host words))) =>
      if words = unreadMark then some path else none
  | _ => none

/-- The fault that an error of the system stands for. -/
def faultOf : IO.Error → IoFault
  | .noFileOrDirectory .. => .notFound
  | .invalidArgument _ code details => if code = 36 then .nameTooLong else .host details
  | .inappropriateType _ code details =>
      if code = 20 then .notDirectory else if code = 21 then .isDirectory else .host details
  | error => .host (toString error)

/-- Reads one more file. -/
def learn (known : Known) (path : String) : IO Known := do
  let content ← try
      let bytes ← IO.FS.readBinFile path
      pure (.ok bytes.data.toList)
    catch error => pure (.error (faultOf error))
  return known.insert path content

/-- Reads the files that a run asks for, until it asks for none that is unknown. -/
partial def learnFor (known : Known) (run : Disk → Option Fault) : IO Known := do
  match (run (diskOf known)).bind unread? with
  | some path => learnFor (← learn known path) run
  | none => return known

/-- More fuel than a run on a real machine can use. -/
def fuel : Nat := 4000000000000000000

/-- Writes a report and ends with a status. -/
def fail (status : UInt32) (fault : Fault) : IO UInt32 := do
  IO.eprintln fault.report
  return status

/-- Writes what is left of the output and a report, and ends with the status of a run. -/
def finish (result : CommandLine.Result) : IO UInt32 := do
  IO.print result.output
  match result.fault with
  | some fault => fail result.status fault
  | none => return result.status

/-- Runs the unit in a file. -/
def runFile (settings : Settings) (path : String) : IO UInt32 := do
  let run (disk : Disk) :=
    CommandLine.runFile fuel disk path (CommandLine.session settings disk)
  let known ← learnFor .empty fun disk => (run disk).bind (·.fault)
  match run (diskOf known) with
  | none => return 1
  | some result => finish result

/-- The line without the characters that end it. -/
def withoutEnd (line : String) : String :=
  match line.toList.reverse with
  | '\n' :: '\r' :: rest => String.ofList rest.reverse
  | '\n' :: rest => String.ofList rest.reverse
  | _ => line

/-- Feeds the lines of the input to a shell until one asks to quit. -/
partial def feed (settings : Settings) (known : Known) (shell : Shell String) : IO UInt32 := do
  let input ← IO.getStdin
  let line? ← try pure (some (← input.getLine)) catch _ => pure none
  match line? with
  | none => fail 1 (.io .notUtf8)
  | some "" => return 0
  | some line =>
      let line := withoutEnd line
      let on (disk : Disk) : Shell String :=
        { shell with disk, session := { shell.session with loader := settings.loader disk } }
      let known ← learnFor known fun disk =>
        match (on disk).perform fuel line with
        | some (.error fault, _) => some fault
        | _ => none
      match CommandLine.feedLine fuel (on (diskOf known)) line with
      | none => return 1
      | some (.error result) => finish result
      | some (.ok shell) =>
          IO.print shell.session.host
          (← IO.getStdout).flush
          feed settings known { shell with session := { shell.session with host := "" } }

/-- Reads settings, then runs a file or the shell. -/
def run (options : CommandLine.Options) : IO UInt32 := do
  let known ← learn .empty options.settingsPath
  match Settings.ofFileOrDefault (diskOf known) (some options.settingsPath) with
  | .error fault => fail 2 fault
  | .ok settings =>
      match options.file with
      | some path => runFile settings path
      | none =>
          let disk := diskOf .empty
          feed settings .empty
            (Shell.start (CommandLine.session settings disk) disk settings.shell)

end Main
end DocScript

/-- The entry point. -/
def main (args : List String) : IO UInt32 :=
  match DocScript.CommandLine.Options.ofArguments? args with
  | some options => DocScript.Main.run options
  | none => do
      IO.eprintln "error: unexpected arguments"
      return 2
