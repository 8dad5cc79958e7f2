import DocScript.Fault.Basic
import DocScript.Json.Fault
import DocScript.Table

/-!
# Files

Programs read files through a disk, which answers a path with the bytes of the
file or a fault. A file tree is the content of a working directory and makes a
disk: a path is followed component by component, where each component but the
last must lead to a directory, and a path that ends with a slash must lead to
one too. Paths and their components have a greatest length. Nothing is known of
what lies outside the working directory except that the directories above it are
there.
-/

namespace DocScript

/-- Answers a path with the bytes of a file. -/
abbrev Disk :=
  String → Except IoFault Json.Bytes

namespace Disk

/-- The text of a file. -/
def readText (disk : Disk) (path : String) : Except IoFault String :=
  match disk path with
  | .error fault => .error fault
  | .ok bytes =>
      match String.fromUTF8? ⟨bytes.toArray⟩ with
      | some text => .ok text
      | none => .error .notUtf8

/-- Whether a path leads to a file or a directory. -/
def holds (disk : Disk) (path : String) : Bool :=
  match disk path with
  | .ok _ => true
  | .error fault => fault = .isDirectory

end Disk

/-- A file or a directory. -/
inductive FileTree where
  | file (content : Json.Bytes)
  | directory (entries : List (String × FileTree))

namespace FileTree

/-- The entries of a directory; a file has none. -/
def entries : FileTree → List (String × FileTree)
  | .file _ => []
  | .directory entries => entries

/-- A tree put at the end of a chain of directories, which are made where they are missing. -/
def place (tree : FileTree) : List String → List (String × FileTree) → List (String × FileTree)
  | [], folder => folder
  | [name], folder => Table.put name tree folder
  | name :: rest, folder =>
      let inner := ((Table.find name folder).map entries).getD []
      Table.put name (.directory (place tree rest inner)) folder

/-- The components of a path: no empty ones and no single dots. -/
def components (path : String) : List String :=
  (path.splitOn "/").filter fun component => component ≠ "" && component ≠ "."

/-- Where the following of a path stands: the directories passed, innermost first. -/
inductive Place where
  /-- Inside the working directory, whose entries are the last in the list. -/
  | inside (current : FileTree) (above : List FileTree)
  /-- In a directory above the working directory. -/
  | outside

/-- The most bytes that a component may have. -/
def maxComponent : Nat := 255

/-- The most bytes that a path may have. -/
def maxPath : Nat := 4095

/-- Follows components from a place on. -/
def follow : Place → List String → Except IoFault Place
  | place, [] => .ok place
  | .outside, name :: rest =>
      if name = ".." then follow .outside rest
      else if maxComponent < name.utf8ByteSize then .error .nameTooLong
      else .error .notFound
  | .inside (.file _) _, _ :: _ => .error .notDirectory
  | .inside (.directory entries) above, name :: rest =>
      if name = ".." then
        match above with
        | parent :: above => follow (.inside parent above) rest
        | [] => follow .outside rest
      else if maxComponent < name.utf8ByteSize then .error .nameTooLong
      else
        match Table.find name entries with
        | some tree => follow (.inside tree (.directory entries :: above)) rest
        | none => .error .notFound

/-- Whether a path asks for a directory by the way it ends. -/
def asksDirectory (path : String) : Bool :=
  match path.toList.reverse with
  | '/' :: _ => true
  | '.' :: '/' :: _ => true
  | _ => false

/-- Answers a path inside the working directory with the given tree. -/
def read (tree : FileTree) (path : String) : Except IoFault Json.Bytes :=
  if path.toList.any (·.toNat = 0) then .error .nulInPath
  else if maxPath < path.utf8ByteSize then .error .nameTooLong
  else if path.isEmpty then .error .notFound
  else
    let start : Place := if path.toList.head? == some '/' then .outside else .inside tree []
    match follow start (components path) with
    | .error fault => .error fault
    | .ok (.inside (.file content) _) =>
        if asksDirectory path then .error .notDirectory else .ok content
    | .ok _ => .error .isDirectory

/-- The disk that a file tree makes. -/
def disk (tree : FileTree) : Disk :=
  tree.read

end FileTree
end DocScript
