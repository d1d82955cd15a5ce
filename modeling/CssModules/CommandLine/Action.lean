import CssModules.CommandLine.Call
import CssModules.CommandLine.Log
import CssModules.Config.Store
import CssModules.Identifier.Escape
import CssModules.Naming.Manifest
import CssModules.Resolution.Resolver
import CssModules.Stylesheet.Collection

namespace CssModules.CommandLine

/-- What a command works on: the files, and what stands on the two outputs. -/
structure Desk where
  files : FileTree
  out : String
  err : String

abbrev Action := ExceptT Error (StateM Desk)

/-- What a command depends on: the current directory, the one that names are relative to, the
configuration with the path of its file, and what is told about the work. -/
structure Context where
  cwd : Path
  base : Path
  config : Config
  configPath : Path
  log : LogFormat

namespace Action

def print (text : String) : Action Unit := modify fun d => { d with out := d.out ++ text }

def printError (text : String) : Action Unit := modify fun d => { d with err := d.err ++ text }

def tell (c : Context) (s : Severity) (message : String) : Action Unit :=
  printError (c.log.line s message)

def onFiles {α : Type} (work : FileAction α) : Action α := fun d =>
  let (result, files) := work d.files
  (result, { d with files := files })

end Action

namespace Context

def place (c : Context) : Place := c.cwd.place

def name (c : Context) (className : String) (file : Path) (template? : Option String) :
    Action Unit := do
  let naming ← c.config.namingAt c.base
  let naming ← match template? with
    | some source => do pure { naming with strategy := .template (← Template.parse source) }
    | none => pure naming
  Action.tell c .debug ("Naming with " ++ strategyText naming.strategy)
  let files := (← get).files
  let (identifier, session) := Session.generate naming (files.packageName? c.place) className
    (Path.absolute c.cwd file) .empty
  Action.printError (c.log.session session)
  Action.print (identifier ++ "\n")

def workplace (c : Context) (files : FileTree) (naming : Naming) : Workplace where
  cwd := c.cwd
  read := Stylesheet.parseFile files c.place
  weight := files.weight
  naming := naming
  packageName? := files.packageName? c.place

def jsonMembers (m : TokenMap) : String :=
  ",\n".intercalate (m.entries.map fun (name, identifiers) =>
    "    " ++ JsonValue.quote name ++ ": " ++ JsonValue.quote identifiers)

def jsonMap (p : Path) (m : TokenMap) : String :=
  "  " ++ JsonValue.quote p.text ++ ": " ++
    if m.entries.isEmpty then "\x7b\x7d" else "\x7b\n" ++ jsonMembers m ++ "\n  \x7d"

/-- Each path once, where it first came, with the map that it came with last. -/
def byPath : List (Path × TokenMap) → List (Path × TokenMap)
  | maps => (maps.map (·.1)).eraseDups.filterMap fun p => maps.reverse.find? (·.1 == p)

def jsonText (maps : List (Path × TokenMap)) : String :=
  "\x7b\n" ++ ",\n".intercalate ((byPath maps).map fun (p, m) => jsonMap p m) ++ "\n\x7d\n"

def plainMap (p : Path) (m : TokenMap) : String :=
  "# " ++ p.text ++ "\n" ++ String.join (m.entries.map fun (name, identifiers) =>
    name ++ " = " ++ identifiers ++ "\n")

def plainText (maps : List (Path × TokenMap)) : String :=
  "\n".intercalate (maps.map fun (p, m) => plainMap p m)

def resolve (c : Context) (files : List Path) (format : Format) : Action Unit := do
  let naming ← c.config.namingAt c.base
  let w := c.workplace (← get).files naming
  let (answer, system) := w.resolveAll files (.initial .empty)
  Action.printError (c.log.session system.state)
  let maps ← answer
  Action.tell c .info ("Resolved " ++ toString maps.length ++ " stylesheet(s), " ++
    toString system.cache.size ++ " cached")
  let maps := maps.map fun (p, finished) => (p, finished.map)
  Action.print (match format with
    | .json => jsonText maps
    | .plain => plainText maps)

def escape (text : String) (isLocal : Bool) : Action Unit :=
  Action.print ((if isLocal then Identifier.escapeLocal text else Identifier.escape text) ++ "\n")

def unescape (text : String) : Action Unit := Action.print (Identifier.unescape text ++ "\n")

def showConfig (c : Context) : Action Unit := do Action.print ((← c.config.text) ++ "\n")

def showPath (c : Context) : Action Unit := Action.print (c.configPath.text ++ "\n")

def target (c : Context) (isLocal : Bool) : Path :=
  if isLocal then c.cwd.join Config.localName else c.configPath

def create (c : Context) (force isLocal : Bool) : Action Unit := do
  let p := c.target isLocal
  if ← Action.onFiles (Config.create c.place p force) then
    Action.tell c .info ("Configuration saved to " ++ p.text)
    Action.print ("✓ Configuration initialized: " ++ p.text ++ "\n")
  else
    Action.printError ("! Config already exists at " ++ p.text ++ "\n" ++
      "  Use --force to overwrite\n")

def set (c : Context) (key value : String) (isLocal : Bool) : Action Unit := do
  let p := c.target isLocal
  Action.onFiles (Config.set c.place p key value)
  Action.print ("✓ Set " ++ key ++ " = " ++ value ++ " in " ++ p.text ++ "\n")

def perform (c : Context) : Request → Action Unit
  | .name className file template? => c.name className file template?
  | .resolve files format => c.resolve files format
  | .escape text isLocal => escape text isLocal
  | .unescape text => unescape text
  | .showConfig => c.showConfig
  | .showPath => c.showPath
  | .create force isLocal => c.create force isLocal
  | .set key value isLocal => c.set key value isLocal

end Context

end CssModules.CommandLine
