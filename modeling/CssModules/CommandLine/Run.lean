import CssModules.CommandLine.Action

namespace CssModules.CommandLine

/-- What a run is surrounded by: the current directory, the configuration that the environment names,
and where it is if nobody names one. -/
structure Surroundings where
  cwd : Path
  configPath : Option String
  defaultConfigPath : Path

/-- What a run ends with: an exit code and what it has done. -/
structure Outcome where
  exitCode : Nat
  desk : Desk

def version : String := "0.3.0"

def Command.usage (c : Command) : String :=
  let below :=
    if c.children.isEmpty then [] else ["<" ++ "|".intercalate (c.children.map (·.1)) ++ ">"]
  "Usage: " ++ " ".intercalate ([c.title, "[OPTIONS]"] ++ c.words.map (fun _ => "<WORD>") ++ below)
    ++ "\n\nOptions:\n" ++ String.join (c.options.map fun o => "  --" ++ o.long ++ "\n")

def failureText (e : Error) : String :=
  "Error: " ++ e.message ++ "\n" ++ (e.hint?.map fun hint => "Hint: " ++ hint ++ "\n").getD ""

def Outcome.ofAction (a : Action Unit) (d : Desk) : Outcome :=
  match a d with
  | (.ok (), d) => ⟨0, d⟩
  | (.error e, d) => ⟨1, { d with err := d.err ++ failureText e }⟩

def Request.isPure : Request → Bool
  | .escape .. | .unescape _ => true
  | _ => false

def Call.project? (call : Call) (s : Surroundings) (files : FileTree) : Option Path :=
  if call.ignoresProject then none else Config.findLocal files s.cwd.place s.cwd

/-- Does what a call asks for. The configuration of a project is laid over the user's, and names are
relative to its directory. -/
def Call.perform (call : Call) (s : Surroundings) : Action Unit := do
  let files := (← get).files
  let configPath := call.configPath.getD s.defaultConfigPath
  let project? := call.project? s files
  if call.request.isPure then
    Context.perform ⟨s.cwd, s.cwd, .default, configPath, .silent⟩ call.request
  else
    let config ← Config.loadMerged files s.cwd.place configPath project?
    let c : Context := {
      cwd := s.cwd
      base := (project?.bind Path.parent?).getD s.cwd
      config := config
      configPath := configPath
      log := ⟨call.verbosity, config.jsonLogs⟩ }
    match project? with
    | some p => Action.tell c .debug ("Using local config: " ++ p.text)
    | none =>
      if call.ignoresProject then
        Action.tell c .debug "Local config discovery disabled (--no-local)"
    c.perform call.request

def run (s : Surroundings) (words : List String) (files : FileTree) : Outcome :=
  let desk : Desk := ⟨files, "", ""⟩
  match Call.parse s.configPath words with
  | .ok call => Outcome.ofAction (call.perform s) desk
  | .error (.version c) => ⟨0, { desk with out := c.title ++ " " ++ version ++ "\n" }⟩
  | .error (.help c) => ⟨0, { desk with out := c.usage }⟩
  | .error .misuse =>
    ⟨2, { desk with
      err := "error: the arguments were not understood\n\n" ++ Command.usage .program }⟩

end CssModules.CommandLine
