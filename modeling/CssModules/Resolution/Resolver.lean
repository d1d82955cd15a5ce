import CssModules.Resolution.Session

namespace CssModules

namespace System

variable {σ : Type}

def initial (state : σ) : System σ := ⟨.empty, 0, [], state⟩

def freshId (s : System σ) : ResolutionId := s.tasks.length

/-- Resolves the stylesheet at an absolute path with all others at rest, in at most so many
steps. -/
def resolveAt (h : Host σ) (fuel : Nat) (p : Path) (s : System σ) :
    Option (Except Error FinishedMap) × System σ :=
  let id := s.freshId
  let s := (s.start id p).runAlone h id fuel
  (s.answer? id, s)

/-- Resolves a stylesheet with all others at rest, in at most so many steps. A path that is not
absolute is seen from `cwd`. -/
def resolve (h : Host σ) (fuel : Nat) (cwd p : Path) (s : System σ) :
    Option (Except Error FinishedMap) × System σ :=
  s.resolveAt h fuel (Path.absolute cwd p)

end System

/-- Where resolutions take place: the current directory, how stylesheets are read, a bound on the
stylesheets and compositions that there are, and what names depend on. -/
structure Workplace where
  cwd : Path
  read : Path → Except Error Stylesheet
  weight : Nat
  naming : Naming
  packageName? : Path → Option String

namespace Workplace

def host (w : Workplace) : Host Session := Session.host w.read w.naming w.packageName?

/-- How many steps are enough for one resolution: two for every stylesheet, one for every
composition, and a few for a stylesheet that does not exist. -/
def steps (w : Workplace) : Nat := 2 * w.weight + 4

/-- Resolves a stylesheet. The steps are enough for every resolution to have an answer; one without
would count as not found. -/
def resolve (w : Workplace) (p : Path) (s : System Session) :
    Except Error FinishedMap × System Session :=
  let (answer, s) := s.resolve w.host w.steps w.cwd p
  (answer.getD (.error (.stylesheetNotFound p)), s)

/-- Resolves stylesheets one after another: every one of them, also those behind one that fails. -/
def resolveEach (w : Workplace) :
    List Path → System Session → List (Path × Except Error FinishedMap) × System Session
  | [], s => ([], s)
  | p :: ps, s =>
    let (answer, s) := w.resolve p s
    let (answers, s) := w.resolveEach ps s
    ((p, answer) :: answers, s)

/-- The maps of stylesheets in order, or the first failure. -/
def collect {α : Type} (answers : List (Path × Except Error α)) : Except Error (List (Path × α)) :=
  answers.mapM fun (p, answer) => answer.map (p, ·)

def resolveAll (w : Workplace) (ps : List Path) (s : System Session) :
    Except Error (List (Path × FinishedMap)) × System Session :=
  let (answers, s) := w.resolveEach ps s
  (collect answers, s)

def name (w : Workplace) (className : String) (p : Path) (s : System Session) :
    String × System Session :=
  let (identifier, state) := Session.generate w.naming w.packageName? className p s.state
  (identifier, { s with state := state })

end Workplace

end CssModules
