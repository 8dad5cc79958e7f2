import DocScript.FileTree
import DocScript.Json.Raw
import DocScript.Units

/-!
# Settings

Settings are a record with a default for every field, written as a JSON object,
or as a JSON list of the fields in order. Members that are no fields are passed
over. A field given twice, or with a value of another type, makes the text
unreadable.
-/

namespace DocScript

/-- Settings of the shell. -/
structure ShellSettings where
  prompt : String := "#"
  colors : Bool := true
  debug : Bool := false
deriving DecidableEq

/-- Settings of the program. -/
structure Settings where
  importRoot : String := "."
  importExtension : String := "json"
  logLevel : String := "warn"
  maxCallDepth : Nat := 1000
  shell : ShellSettings := {}
deriving DecidableEq

namespace Settings

/-- The fields that are given, by name, where each is given once. -/
def distinct? (fields : List String) :
    List (String × Json.Bytes) → Option (List (String × Json.Bytes))
  | [] => some []
  | (name, content) :: rest =>
      if fields.contains name then
        if rest.any (·.1 = name) then none
        else (distinct? fields rest).map ((name, content) :: ·)
      else distinct? fields rest

/-- The fields that a record gives, by name. -/
def given? (fields : List String) (text : Json.Bytes) : Option (List (String × Json.Bytes)) :=
  match Json.Raw.container? text with
  | none => none
  | some (.object members) => distinct? fields members
  | some (.list items) =>
      if items.length ≤ fields.length then some (fields.zip items) else none

/-- A text. -/
def text? (content : Json.Bytes) : Option String :=
  match Json.readBytes content with
  | .ok (.string s) => some s
  | _ => none

/-- A flag. -/
def flag? (content : Json.Bytes) : Option Bool :=
  match Json.readBytes content with
  | .ok (.bool b) => some b
  | _ => none

/-- A count, written as a whole number. -/
def count? (content : Json.Bytes) : Option Nat :=
  match Json.readBytes content with
  | .ok (.number (.whole (.ofNat n))) => some n
  | _ => none

/-- A field by name: its default where it is not given, nothing where it cannot be read. -/
def field {α : Type} (given : List (String × Json.Bytes)) (name : String) (default : α)
    (read : Json.Bytes → Option α) : Option α :=
  match Table.find name given with
  | none => some default
  | some content => read content

/-- Reads the settings of the shell. -/
def shellOfBytes? (text : Json.Bytes) : Option ShellSettings := do
  let default : ShellSettings := {}
  let given ← given? ["prompt", "colors", "debug"] text
  let prompt ← field given "prompt" default.prompt text?
  let colors ← field given "colors" default.colors flag?
  let debug ← field given "debug" default.debug flag?
  return { prompt, colors, debug }

/-- Reads settings. -/
def ofBytes? (text : Json.Bytes) : Option Settings := do
  let default : Settings := {}
  let given ← given?
    ["import_root", "import_extension", "log_level", "max_call_depth", "repl"] text
  let importRoot ← field given "import_root" default.importRoot text?
  let importExtension ← field given "import_extension" default.importExtension text?
  let logLevel ← field given "log_level" default.logLevel text?
  let maxCallDepth ← field given "max_call_depth" default.maxCallDepth count?
  let shell ← field given "repl" default.shell shellOfBytes?
  return { importRoot, importExtension, logLevel, maxCallDepth, shell }

/-- The settings that a text stands for. -/
def read (text : String) : Except Fault Settings :=
  match ofBytes? (Json.bytesOf text) with
  | some settings => .ok settings
  | none => .error (.settings .unreadableText)

/-- The settings of the shell that a text stands for. -/
def readShell (text : String) : Except Fault ShellSettings :=
  match shellOfBytes? (Json.bytesOf text) with
  | some settings => .ok settings
  | none => .error (.settings .unreadableText)

/-- The settings in a file, which must be there. -/
def ofFile (disk : Disk) (path : String) : Except Fault Settings :=
  match disk path with
  | .ok bytes =>
      match ofBytes? bytes with
      | some settings => .ok settings
      | none => .error (.settings .unreadableFile)
  | .error .isDirectory => .error (.settings .unreadableFile)
  | .error _ => .error (.settings (.noFile path))

/-- The settings in a file, or the defaults when there is no such file. -/
def ofFileOrDefault (disk : Disk) (path : Option String) : Except Fault Settings :=
  match path with
  | none => .ok {}
  | some path => if disk.holds path then ofFile disk path else .ok {}

/-- The units that settings make available. -/
def loader (settings : Settings) (disk : Disk) : Loader :=
  Loader.ofDisk disk settings.importRoot settings.importExtension

end Settings
end DocScript
