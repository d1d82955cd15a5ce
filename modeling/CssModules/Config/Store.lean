import CssModules.Config.Decode
import CssModules.Files.Tree
import CssModules.Toml.Number
import CssModules.Toml.Read
import CssModules.Toml.Write

namespace CssModules

open Toml (Table)

/-- Work on files that may fail; what has been changed before a failure stays changed. -/
abbrev FileAction := ExceptT Error (StateM FileTree)

def FileAction.change (e : Error) (f : FileTree → Except AccessFault FileTree) : FileAction Unit := do
  match f (← get) with
  | .ok t => set t
  | .error _ => throw e

namespace Config

def localName : Path := ⟨".scopecss.toml"⟩

def findLocal (t : FileTree) (cwd : Place) (start : Path) : Option Path :=
  ((start :: start.ancestors).map (·.join localName)).find? fun p => t.hasFile cwd p

def readTable (t : FileTree) (cwd : Place) (access : Path → Access) (p : Path) :
    Except Error Table :=
  match t.readText cwd p with
  | .error _ => .error (.io (access p))
  | .ok text =>
    match Toml.parse? text with
    | some entries => .ok entries
    | none => .error (.configInvalid p)

def decode (p : Path) (entries : Table) : Except Error Config :=
  match ofToml? entries with
  | some c => .ok c
  | none => .error (.configInvalid p)

def loadFile (t : FileTree) (cwd : Place) (p : Path) : Except Error Config := do
  decode p (← readTable t cwd .readingConfig p)

def load (t : FileTree) (cwd : Place) (p : Path) : Except Error Config :=
  if t.hasNode cwd p then loadFile t cwd p else .ok .default

/-- The table of the configuration that others are laid over; where there is none it is empty. -/
def baseTable (t : FileTree) (cwd : Place) (p : Path) : Except Error Table :=
  if t.hasNode cwd p then readTable t cwd .readingConfig p else .ok []

/-- Loads a configuration with that of a project, if there is one, laid over it. -/
def loadMerged (t : FileTree) (cwd : Place) (p : Path) (project? : Option Path) :
    Except Error Config :=
  match project? with
  | none => load t cwd p
  | some project => do
    let base ← baseTable t cwd p
    let overlay ← readTable t cwd .readingConfig project
    decode project (Toml.mergeEntries base overlay)

def text (c : Config) : Except Error String :=
  if Toml.fits c.hash.length then .ok (Toml.write c.toToml) else .error .unwritable

def makeParent (cwd : Place) (p : Path) : FileAction Unit :=
  match p.parent? with
  | none => return
  | some directory =>
    .change (.configDirectory directory) fun t => t.makeDirectories cwd directory

def writeText (cwd : Place) (access : Path → Access) (p : Path) (text : String) :
    FileAction Unit :=
  .change (.io (access p)) fun t => t.write cwd p text.toUTF8

def save (cwd : Place) (p : Path) (c : Config) : FileAction Unit := do
  makeParent cwd p
  writeText cwd .writingConfig p (← c.text)

/-- The value that a text gives to a key: an integer for the one key that counts something, if it is
one, and else the text itself. -/
def valueOf (key text : String) : Toml :=
  match Toml.decimal? text.toList with
  | some n => if key = "hash.length" then .integer n else .string text
  | none => .string text

def splitKey (key : String) : Option (String × String) :=
  match Text.splitAt '.' key.toList with
  | part :: field :: rest =>
    some (String.ofList part, String.ofList (Text.joinWith '.' (field :: rest)))
  | _ => none

def setValue (entries : Table) (key text : String) : Except Error Table :=
  match splitKey key with
  | none => .error (.configuration (.keyWithoutSection key))
  | some (part, field) =>
    match (Toml.get? entries part).getD (.table []) with
    | .table fields =>
      .ok (Toml.insert part (.table (Toml.insert field (valueOf key text) fields)) entries)
    | _ => .error (.configuration (.sectionNotTable part))

/-- Checks that a table is a configuration that names can be made with; otherwise the value of a key
is to blame. -/
def check (entries : Table) (key : String) : Except Error Unit :=
  match ofToml? entries with
  | none => .error (.configuration (.invalidValue key))
  | some c => do
    let _ ← c.namingAt ⟨"/"⟩

def checkKey (key : String) : Except Error Unit :=
  if settingKeys.contains key then .ok () else .error (.configuration (.unknownKey key))

/-- The table of a configuration that is to be changed; where there is none it is empty. -/
def tableToChange (t : FileTree) (cwd : Place) (p : Path) : Except Error Table :=
  if t.hasNode cwd p then readTable t cwd .reading p else .ok []

/-- A configuration's table with another value for a key, if both are sound. -/
def changed (entries : Table) (key text : String) : Except Error Table := do
  let entries ← setValue entries key text
  check entries key
  return entries

/-- Changes one value in a configuration and keeps all others; a file that does not exist is made. -/
def set (cwd : Place) (p : Path) (key text : String) : FileAction Unit := do
  checkKey key
  let entries ← tableToChange (← get) cwd p
  let entries ← changed entries key text
  makeParent cwd p
  writeText cwd .writing p (Toml.write entries)

/-- Saves the default configuration; one that exists is replaced only if `force` says so. Tells
whether it was saved. -/
def create (cwd : Place) (p : Path) (force : Bool) : FileAction Bool := do
  if (← get).hasNode cwd p && !force then return false
  save cwd p .default
  return true

end Config

end CssModules
