import CssModules.Naming.Package

namespace CssModules.Package

/-- Where a lookup stands while others may go on. -/
inductive Search where
  | start (directories : List Path)
  | walk (passed ahead : List Path)
  | leave (passed : List Path) (found : Option Package)
  | done (found : Option Package)
  deriving DecidableEq, Repr

namespace Search

def ofPath (p : Path) : Search := .start p.ancestors

/-- What a lookup does before the others go on, and what is remembered then. A directory that is not
known is passed, and its manifest is read. -/
def step (name? : Path → Option String) (memo : Memo) : Search → Search × Memo
  | .start [] => (.done none, memo)
  | .start (d :: ds) =>
    match memo.lookup d.location with
    | some known => (.done known, memo)
    | none => (.walk [] (d :: ds), memo)
  | .walk passed [] => (.leave passed none, memo)
  | .walk passed (d :: ds) =>
    match memo.lookup d.location with
    | some known => (.leave passed known, memo)
    | none =>
      match name? d with
      | some name => (.leave (passed ++ [d]) (some ⟨name, d⟩), memo)
      | none => (.walk (passed ++ [d]) ds, memo)
  | .leave passed found => (.done found, memo.learn passed found)
  | .done found => (.done found, memo)

end Search

/-- Lookups, and what they have remembered together. -/
structure Lookups where
  memo : Memo
  searches : List Search
  deriving DecidableEq, Repr

namespace Lookups

def ofPaths (paths : List Path) : Lookups := ⟨[], paths.map Search.ofPath⟩

def step (name? : Path → Option String) (s : Lookups) (i : Nat) : Lookups :=
  match s.searches[i]? with
  | some search =>
    let (search, memo) := search.step name? s.memo
    ⟨memo, s.searches.set i search⟩
  | none => s

/-- Lets lookups go on one after the other, each as often as its number stands in the schedule. -/
def run (name? : Path → Option String) (schedule : List Nat) (s : Lookups) : Lookups :=
  schedule.foldl (step name?) s

def answer? (s : Lookups) (i : Nat) : Option (Option Package) :=
  match s.searches[i]? with
  | some (.done found) => some found
  | _ => none

end Lookups

def Memo.Reached (memo : Memo) (name? : Path → Option String) : Prop :=
  ∃ paths schedule, memo = ((Lookups.ofPaths paths).run name? schedule).memo

end CssModules.Package
