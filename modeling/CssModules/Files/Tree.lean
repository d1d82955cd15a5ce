import CssModules.Path

namespace CssModules

/-- What stands at a place. -/
inductive Node where
  | directory
  | file (content : ByteArray)

instance : DecidableEq Node
  | .directory, .directory => .isTrue rfl
  | .directory, .file _ => .isFalse nofun
  | .file _, .directory => .isFalse nofun
  | .file a, .file b => match ByteArray.instDecidableEq a b with
    | .isTrue h => .isTrue (congrArg Node.file h)
    | .isFalse h => .isFalse fun he => h (Node.file.inj he)

/-- The names that lead from the root to a place. -/
abbrev Place := List String

/-- What exists: the places below the root, each once. -/
structure FileTree where
  nodes : List (Place × Node)

/-- Why an access fails. -/
inductive AccessFault where
  | notFound
  | notDirectory
  | isDirectory
  | notText
  deriving DecidableEq, Repr

namespace FileTree

def empty : FileTree := ⟨[]⟩

def node? (t : FileTree) (place : Place) : Option Node :=
  if place.isEmpty then some .directory else t.nodes.lookup place

def put (t : FileTree) (place : Place) (node : Node) : FileTree :=
  ⟨(place, node) :: t.nodes.filter (·.1 != place)⟩

def delete (t : FileTree) (place : Place) : FileTree :=
  ⟨t.nodes.filter fun n => !place.isPrefixOf n.1⟩

/-- Walks on from a directory, one piece of a path at a time. Every piece but the last must lead to
a directory, and so must a last one that names no entry. -/
def walk (t : FileTree) : (place : Place) → List (List Char) → Except AccessFault Place
  | place, [] => .ok place
  | place, piece :: pieces =>
    match t.node? place with
    | none => .error .notFound
    | some (.file _) => .error .notDirectory
    | some .directory =>
      if Path.isIdle piece then t.walk place pieces
      else if piece == ['.', '.'] then t.walk place.dropLast pieces
      else t.walk (place ++ [String.ofList piece]) pieces

/-- The place that a path leads to, seen from the directory at `cwd`; what stands there may not
exist, but the directories on the way do. -/
def locate (t : FileTree) (cwd : Place) (p : Path) : Except AccessFault Place :=
  match p.split with
  | (.root, pieces) => t.walk [] pieces
  | (.current, pieces) => t.walk cwd pieces
  | (.none, []) => .error .notFound
  | (.none, pieces) => t.walk cwd pieces

def find (t : FileTree) (cwd : Place) (p : Path) : Except AccessFault Node := do
  match t.node? (← t.locate cwd p) with
  | some n => .ok n
  | none => .error .notFound

def hasNode (t : FileTree) (cwd : Place) (p : Path) : Bool := (t.find cwd p).toOption.isSome

def hasFile (t : FileTree) (cwd : Place) (p : Path) : Bool :=
  match t.find cwd p with
  | .ok (.file _) => true
  | _ => false

def read (t : FileTree) (cwd : Place) (p : Path) : Except AccessFault ByteArray := do
  match ← t.find cwd p with
  | .file content => .ok content
  | .directory => .error .isDirectory

def readText (t : FileTree) (cwd : Place) (p : Path) : Except AccessFault String := do
  match String.fromUTF8? (← t.read cwd p) with
  | some text => .ok text
  | none => .error .notText

/-- Writes a file; its directory must exist. -/
def write (t : FileTree) (cwd : Place) (p : Path) (content : ByteArray) :
    Except AccessFault FileTree := do
  let place ← t.locate cwd p
  match p.split.2.getLast?, t.node? place with
  | _, some .directory => .error .isDirectory
  | some piece, _ =>
    if Path.isIdle piece then .error .isDirectory
    else match t.node? place.dropLast with
      | some .directory => .ok (t.put place (.file content))
      | some (.file _) => .error .notDirectory
      | none => .error .notFound
  | none, _ => .error .isDirectory

def makeWalk : FileTree → (place : Place) → List (List Char) → Except AccessFault FileTree
  | t, _, [] => .ok t
  | t, place, piece :: pieces =>
    if Path.isIdle piece then t.makeWalk place pieces
    else if piece == ['.', '.'] then t.makeWalk place.dropLast pieces
    else
      let next := place ++ [String.ofList piece]
      match t.node? next with
      | some .directory => t.makeWalk next pieces
      | some (.file _) => .error .notDirectory
      | none => (t.put next .directory).makeWalk next pieces

def makeDirectories (t : FileTree) (cwd : Place) (p : Path) : Except AccessFault FileTree :=
  match p.split with
  | (.root, pieces) => t.makeWalk [] pieces
  | (_, pieces) => t.makeWalk cwd pieces

end FileTree

def Path.place (p : Path) : Place :=
  p.normalize.components.filterMap fun
    | .name s => some s
    | _ => none

end CssModules
