import CssModules.CommandLine.Run

namespace CssModules.CommandLine

def targets (t : FileTree) (cwd : Place) (p : Path) : List Path :=
  match Stylesheet.parseFile t cwd p with
  | .ok sheet => sheet.compositions.filterMap fun c => match c.source with
    | .file _ target => some target
    | _ => none
  | .error _ => []

/-- Some stylesheets with all that they compose from, directly or, over at most `fuel` steps, through
others. -/
def closure (t : FileTree) (cwd : Place) : (fuel : Nat) → List Path → List Path
  | 0, ps => ps
  | fuel + 1, ps =>
    let new := ((ps.flatMap (targets t cwd)).filter fun p => !ps.contains p).eraseDups
    if new.isEmpty then ps else closure t cwd fuel (ps ++ new)

def Request.stylesheets (r : Request) (cwd : Path) (t : FileTree) : List Path :=
  match r with
  | .resolve files _ =>
    closure t cwd.place (t.nodes.length + 1) (files.map (Path.absolute cwd))
  | _ => []

def Request.named (r : Request) (cwd : Path) (t : FileTree) : List Path :=
  match r with
  | .name _ file _ => [Path.absolute cwd file]
  | _ => r.stylesheets cwd t

/-- The files that a run on some words may look at. -/
def reach (s : Surroundings) (words : List String) (t : FileTree) : List Path :=
  match Call.parse s.configPath words with
  | .error _ => []
  | .ok call =>
    if call.request.isPure then []
    else
      call.configPath.getD s.defaultConfigPath ::
        (s.cwd :: s.cwd.ancestors).map (·.join Config.localName) ++
        call.request.stylesheets s.cwd t ++
        (call.request.named s.cwd t).flatMap fun p => p.ancestors.map Package.manifestPath

end CssModules.CommandLine
