import CssModules.Files.Tree
import CssModules.Json.Value
import CssModules.Naming.Package

namespace CssModules

namespace Package

def manifestPath (directory : Path) : Path := directory.join ⟨"package.json"⟩

/-- The name that the text of a manifest gives: that of the member `name` of an object, or the only
item of a list. Text that is not well-formed gives none, and neither does a repeated name. -/
def nameOf? (manifest : String) : Option String :=
  match JsonValue.parse? manifest with
  | some (.object members) =>
    if members.any (·.1.isNone) then none
    else match members.filter (·.1 == some "name".toList) with
      | [(_, .string text)] => text.map String.ofList
      | _ => none
  | some (.array [.string text]) => text.map String.ofList
  | _ => none

end Package

def FileTree.packageName? (t : FileTree) (cwd : Place) (directory : Path) : Option String :=
  (t.readText cwd (Package.manifestPath directory)).toOption.bind Package.nameOf?

end CssModules
