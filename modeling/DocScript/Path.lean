/-!
# Paths

A path is a text with slashes between its components. Joining and extending work
on the text itself: what is not changed is kept as it was written.

The file name of a path is its last component once trailing slashes and single
dots have been dropped, unless that is a double dot or nothing. Its extension
follows the last dot of the file name, if the name has a dot after its first
character.
-/

namespace DocScript
namespace Path

/-- A path as the list of its characters. -/
abbrev Chars := List Char

/-- Whether a path starts at the root of the file system. -/
def isAbsolute : Chars → Bool
  | '/' :: _ => true
  | _ => false

/-- A path taken relative to another. An absolute one stands for itself. -/
def join (base path : Chars) : Chars :=
  if isAbsolute path then path
  else if base.isEmpty || base.getLast? == some '/' then base ++ path
  else base ++ '/' :: path

/-- A reversed path without trailing slashes and single dots. -/
def dropTrailing : Chars → Chars
  | '/' :: rest => dropTrailing rest
  | '.' :: '/' :: rest => dropTrailing rest
  | rest => rest

/-- The path up to the end of its last component. -/
def body (path : Chars) : Chars :=
  (dropTrailing path.reverse).reverse

/-- The last component of a path, which may be empty or made of dots. -/
def lastComponent (path : Chars) : Chars :=
  ((body path).reverse.takeWhile (· ≠ '/')).reverse

/-- The file name of a path. -/
def fileName? (path : Chars) : Option Chars :=
  let name := lastComponent path
  if name = [] ∨ name = ['.'] ∨ name = ['.', '.'] then none else some name

/-- What follows the last dot of a file name, and what precedes it. -/
def splitName (name : Chars) : Chars × Option Chars :=
  let after := name.reverse.takeWhile (· ≠ '.')
  match name.reverse.dropWhile (· ≠ '.') with
  | [] => (name, none)
  | [_] => (name, none)
  | _ :: before => (before.reverse, some after.reverse)

/-- The extension of a path. -/
def extension? (path : Chars) : Option Chars :=
  match fileName? path with
  | some name => (splitName name).2
  | none => none

/--
The path with its extension replaced, or added where it has none. What stands
after the file name vanishes; a path without a file name stays as it is.
-/
def withExtension (path extension : Chars) : Chars :=
  match fileName? path with
  | none => path
  | some name =>
      let file := body path
      let stem := file.take (file.length - name.length) ++ (splitName name).1
      if extension.isEmpty then stem else stem ++ '.' :: extension

/-- Whether the extension of units is to be added to a reference: only if it has none. -/
def takesExtension (extension reference : Chars) : Bool :=
  (extension? reference).isNone && !extension.isEmpty

/-- Whether a text can stand at the end of a file name. -/
def fitsFileName (text : Chars) : Bool :=
  !text.contains '/'

/--
The path of the unit that a reference names: taken relative to a root, with the
extension of units added when the reference has none.
-/
def resolve (root extension reference : Chars) : Chars :=
  let path := join root reference
  if takesExtension extension reference then withExtension path extension else path

end Path
end DocScript
