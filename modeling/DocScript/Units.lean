import DocScript.FileTree
import DocScript.Path
import DocScript.Table
import DocScript.Session.Basic

/-!
# Sources of units

Units come from a table of texts, or from files below a root directory. A file is
named by a reference to which the extension of units is added where it has none.
-/

namespace DocScript
namespace Loader

/-- Units from a table of texts. -/
def ofTable (units : Table String) : Loader := fun reference =>
  match units.get? reference with
  | some text => .ok text
  | none => .error (.notFound reference)

/-- Units in memory are found under their names and nowhere else. -/
theorem ofTable_eq_ok_iff {units : Table String} {reference text : String} :
    ofTable units reference = .ok text ↔ units.get? reference = some text := by
  unfold ofTable
  cases units.get? reference <;> simp

/-- The path of the file that a reference names. -/
def path (root extension reference : String) : String :=
  String.ofList (Path.resolve root.toList extension.toList reference.toList)

/-- Whether a reference can be made a path: an extension to be added fits a file name. -/
def hasPath (extension reference : String) : Bool :=
  !Path.takesExtension extension.toList reference.toList || Path.fitsFileName extension.toList

/-- Units from files below a root directory. -/
def ofDisk (disk : Disk) (root extension : String) : Loader := fun reference =>
  if hasPath extension reference then
    let path := path root extension reference
    match disk.readText path with
    | .ok text => .ok text
    | .error .notFound => .error (.notFound reference)
    | .error fault => .error (.unreadable path fault)
  else .error (.unfitExtension extension)

end Loader
end DocScript
