import CssModules.Path

namespace CssModules

/-- A named package and the directory of its manifest. -/
structure Package where
  name : String
  root : Path
  deriving DecidableEq, Repr

/-- What a directory is, whatever the spelling of its path. -/
abbrev Location := List Path.Component

def Path.location (p : Path) : Location := p.components

namespace Package

def nearest (name? : Path → Option String) (directories : List Path) : Option Package :=
  directories.findSome? fun d => (name? d).map (⟨·, d⟩)

/-- The package of a stylesheet, found by a plain walk. -/
def find (name? : Path → Option String) (p : Path) : Option Package :=
  nearest name? p.ancestors

/-- What is known of directories: the package they are in, if they are in one. -/
abbrev Memo := List (Location × Option Package)

/-- Walks through directories up to one that is known or has a name: those that were new, and what
was found. -/
def Memo.walk (memo : Memo) (name? : Path → Option String) :
    List Path → List Path × Option Package
  | [] => ([], none)
  | d :: ds =>
    match memo.lookup d.location with
    | some known => ([], known)
    | none =>
      match name? d with
      | some name => ([d], some ⟨name, d⟩)
      | none =>
        let (visited, found) := memo.walk name? ds
        (d :: visited, found)

def Memo.learn (memo : Memo) (visited : List Path) (found : Option Package) : Memo :=
  visited.map (fun d => (d.location, found)) ++ memo

def Memo.find (memo : Memo) (name? : Path → Option String) (p : Path) : Option Package × Memo :=
  let (visited, found) := memo.walk name? p.ancestors
  (found, memo.learn visited found)

end Package

end CssModules
