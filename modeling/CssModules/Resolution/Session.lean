import CssModules.Naming.Generator
import CssModules.Resolution.Task

namespace CssModules

/-- Something that happened. -/
inductive Event where
  | asked (p : Path)
  | parsed (p : Path) (classes compositions : Nat)
  | named (package : Package)
  | released (p : Path)
  deriving DecidableEq, Repr

/-- What is known of packages, and what has happened, latest first. -/
structure Session where
  memo : Package.Memo
  events : List Event

namespace Session

def empty : Session := ⟨[], []⟩

def record (s : Session) (e : Event) : Session := { s with events := e :: s.events }

def parse (read : Path → Except Error Stylesheet) (p : Path) (s : Session) :
    Except Error Stylesheet × Session :=
  let s := s.record (.asked p)
  match read p with
  | .ok sheet =>
    (.ok sheet, s.record (.parsed p sheet.localNames.length sheet.compositions.length))
  | .error e => (.error e, s)

/-- The package that the last directory of a walk has just named. -/
def discovered? (visited : List Path) (found : Option Package) : Option Package :=
  found.filter fun package => visited.getLast?.any (·.same package.root)

def findPackage (name? : Path → Option String) (p : Path) (s : Session) :
    Option Package × Session :=
  let (visited, found) := s.memo.walk name? p.ancestors
  let s := { s with memo := s.memo.learn visited found }
  (found, match discovered? visited found with
    | some package => s.record (.named package)
    | none => s)

def generate (n : Naming) (name? : Path → Option String) (className : String) (p : Path)
    (s : Session) : String × Session :=
  if n.needsPackage then
    let (package, s) := s.findPackage name? p
    (n.identifier package className p, s)
  else (n.identifier none className p, s)

def host (read : Path → Except Error Stylesheet) (n : Naming) (name? : Path → Option String) :
    Host Session where
  parse := parse read
  name := generate n name?
  released p s := s.record (.released p)

end Session

end CssModules
