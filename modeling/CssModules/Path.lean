import CssModules.Text.Split

/-!
Paths of a file system with `/` as separator. A path is the text it was written as; what it denotes
is the list of its components. Two paths with the same components are the same place, whatever their
spelling.
-/

namespace CssModules

/-- A path, as written. -/
structure Path where
  text : String
  deriving DecidableEq, Repr, Inhabited

namespace Path

/-- A step of a path: the root, the directory itself, its parent, or an entry by name. -/
inductive Component where
  | root
  | current
  | parent
  | name (text : String)
  deriving DecidableEq, Repr

instance : ToString Path := ⟨text⟩

/-- What a spelling starts with: a `/`, a `.` that stands alone, or neither. -/
inductive Lead where
  | root
  | current
  | none
  deriving DecidableEq, Repr

def split (p : Path) : Lead × List (List Char) :=
  match p.text.toList with
  | [] => (.none, [])
  | '/' :: cs => (.root, Text.splitAt '/' cs)
  | cs => match Text.splitAt '/' cs with
    | ['.'] :: ps => (.current, ps)
    | ps => (.none, ps)

def ofSplit : Lead → List (List Char) → Path
  | .root, ps => ⟨String.ofList ('/' :: Text.joinWith '/' ps)⟩
  | .current, [] => ⟨"."⟩
  | .current, ps => ⟨String.ofList ('.' :: '/' :: Text.joinWith '/' ps)⟩
  | .none, ps => ⟨String.ofList (Text.joinWith '/' ps)⟩

/-- Whether a piece names no step: it is empty or a single dot. -/
def isIdle (piece : List Char) : Bool := piece.isEmpty || piece == ['.']

def componentOf? (piece : List Char) : Option Component :=
  if isIdle piece then Option.none
  else if piece == ['.', '.'] then some .parent
  else some (.name (String.ofList piece))

def Lead.components : Lead → List Component
  | .root => [.root]
  | .current => [.current]
  | .none => []

/-- The steps of a path. Empty pieces and dots count for nothing, but for a dot at the start. -/
def components (p : Path) : List Component :=
  p.split.1.components ++ p.split.2.filterMap componentOf?

/-- Whether two paths have the same steps. -/
def same (p q : Path) : Bool := p.components == q.components

def isAbsolute (p : Path) : Bool := p.text.toList.head? == some '/'

def Component.text : Component → String
  | .root => "/"
  | .current => "."
  | .parent => ".."
  | .name s => s

def ofComponents : List Component → Path
  | .root :: cs => ⟨String.ofList ('/' :: Text.joinWith '/' (cs.map (·.text.toList)))⟩
  | cs => ⟨String.ofList (Text.joinWith '/' (cs.map (·.text.toList)))⟩

/-- The path `q` as seen from `p`. -/
def join (p q : Path) : Path :=
  if q.isAbsolute then q
  else if p.text.isEmpty || p.text.toList.getLast? == some '/' then ⟨p.text ++ q.text⟩
  else ⟨p.text ++ "/" ++ q.text⟩

def dropIdle (ps : List (List Char)) : List (List Char) := (ps.reverse.dropWhile isIdle).reverse

/-- The path without its last step, in its own spelling; the root and the empty path have none. -/
def parent? (p : Path) : Option Path :=
  match p.split.1, (dropIdle p.split.2).reverse with
  | .current, [] => some ⟨""⟩
  | _, [] => Option.none
  | lead, _ :: ps => some (ofSplit lead (dropIdle ps.reverse))

def fileName? (p : Path) : Option String :=
  match p.components.getLast? with
  | some (.name s) => some s
  | _ => Option.none

/-- The last dot of a file name that is not its first character cuts it into stem and extension. -/
def stemAndExtension (name : String) : String × Option String :=
  let cs := name.toList.reverse
  match cs.dropWhile (· != '.') with
  | [] | [_] => (name, Option.none)
  | _ :: stem =>
    (String.ofList stem.reverse, some (String.ofList (cs.takeWhile (· != '.')).reverse))

def fileStem? (p : Path) : Option String := p.fileName?.map fun s => (stemAndExtension s).1

def extension? (p : Path) : Option String := p.fileName?.bind fun s => (stemAndExtension s).2

/-- One more step on a stack of steps, last step first: a step to the parent undoes the step before
it, and stays where there is none to undo. -/
def pushLexical (stack : List Component) : Component → List Component
  | .current => stack
  | .parent => match stack with
    | [] => [.parent]
    | [.root] => [.parent, .root]
    | _ :: rest => rest
  | c => c :: stack

/-- The path without `.` and with every `..` resolved against the step before it. -/
def normalize (p : Path) : Path := ofComponents (p.components.foldl pushLexical []).reverse

/-- The absolute normalized form of a path, a relative one being seen from `cwd`. -/
def absolute (cwd p : Path) : Path := (cwd.join p).normalize

def divergence? : (target base : List Component) → Option (List Component)
  | target, [] => some target
  | [], base => some (base.map fun _ => .parent)
  | a :: target, .current :: base => (a :: ·) <$> divergence? target base
  | _ :: _, .parent :: _ => Option.none
  | target, base => some (base.map (fun _ => .parent) ++ target)

/-- The steps that lead from the directory with steps `base` to the place with steps `target`.
There are none if `base` climbs, behind the shared steps, to a parent that is not known. -/
def stepsBetween? : (target base : List Component) → Option (List Component)
  | a :: target, b :: base =>
    if a = b then stepsBetween? target base else divergence? (a :: target) (b :: base)
  | target, base => divergence? target base

/-- The text of a path relative to a directory, or its own where there is no way between them. -/
def relativeTo (p base : Path) : String :=
  if p.isAbsolute != base.isAbsolute then p.text
  else match stepsBetween? p.components base.components with
    | some steps => (ofComponents steps).text
    | Option.none => p.text

/-- The directories that contain the place of a path, nearest first. -/
def ancestors (p : Path) : List Path := go p.components.length p
where
  go : Nat → Path → List Path
    | 0, _ => []
    | fuel + 1, p => match p.parent? with
      | some q => q :: go fuel q
      | Option.none => []

end Path

end CssModules
