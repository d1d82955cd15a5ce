import CssModules.Files.Tree
import CssModules.Stylesheet.Parse

namespace CssModules

namespace Stylesheet

/-- Stylesheets in memory, some as text and some read already. -/
structure Collection where
  texts : List (Path × String)
  known : List (Path × Stylesheet)

namespace Collection

def entry? {α : Type} (entries : List (Path × α)) (p : Path) : Option α :=
  (entries.find? (·.1.same p)).map (·.2)

/-- The stylesheet of a collection at a path; one that was read already is taken as it is. -/
def parse (c : Collection) (p : Path) : Except Error Stylesheet :=
  match entry? c.known p with
  | some sheet => .ok sheet
  | none =>
    match entry? c.texts p with
    | some text => Stylesheet.parse p text
    | none => .error (.stylesheetNotFound p)

def put (c : Collection) (p : Path) (text : String) : Collection :=
  { c with texts := (p, text) :: c.texts.filter (!·.1.same p) }

def remove (c : Collection) (p : Path) : Collection :=
  { c with texts := c.texts.filter (!·.1.same p) }

def weight (c : Collection) : Nat :=
  c.texts.foldr (fun (_, text) n => text.length + 1 + n) 0 +
    c.known.foldr (fun (_, sheet) n => sheet.compositions.length + 1 + n) 0

end Collection

def parseFile (t : FileTree) (cwd : Place) (p : Path) : Except Error Stylesheet :=
  match t.readText cwd p with
  | .ok text => Stylesheet.parse p text
  | .error .notFound => .error (.stylesheetNotFound p)
  | .error _ => .error (.io (.readingStylesheet p))

end Stylesheet

def Node.weight : Node → Nat
  | .file content => content.size + 1
  | .directory => 1

def FileTree.weight (t : FileTree) : Nat :=
  t.nodes.foldr (fun (_, node) n => node.weight + n) 0

end CssModules
