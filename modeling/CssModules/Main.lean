import CssModules.CommandLine.Reach

namespace CssModules.CommandLine

def placeText (place : Place) : String := "/" ++ "/".intercalate place

/-- Reads what stands at a place, if anything does; what cannot be read as a file counts as a
directory. -/
def readNode (place : Place) : IO (Option Node) := do
  match ← (IO.FS.realPath (placeText place)).toBaseIO with
  | .error _ => return none
  | .ok _ =>
    match ← (IO.FS.readBinFile (placeText place)).toBaseIO with
    | .ok content => return some (.file content)
    | .error _ => return some .directory

def learn (t : FileTree) (place : Place) : IO FileTree := do
  let mut t := t
  for n in List.range place.length do
    let place := place.take (n + 1)
    if (t.node? place).isNone then
      if let some node ← readNode place then t := t.put place node
  return t

partial def gather (s : Surroundings) (words : List String) (known : List Path) (t : FileTree) :
    IO FileTree := do
  let new := (reach s words t).filter fun p => !known.contains p
  if new.isEmpty then return t
  let t ← new.foldlM (fun t p => learn t (s.cwd.join p).place) t
  gather s words (new ++ known) t

def save (before after : FileTree) : IO Unit := do
  for (place, node) in after.nodes.reverse do
    if before.node? place != some node then
      match node with
      | .directory => IO.FS.createDirAll (placeText place)
      | .file content => IO.FS.writeBinFile (placeText place) content

def defaultConfigPath : IO Path := do
  let directory ← match ← IO.getEnv "XDG_CONFIG_HOME", ← IO.getEnv "HOME" with
    | some configHome, home =>
      if (Path.mk configHome).isAbsolute then pure (Path.mk configHome)
      else pure ((home.map fun h => (Path.mk h).join ⟨".config"⟩).getD ⟨"."⟩)
    | none, some home => pure ((Path.mk home).join ⟨".config"⟩)
    | none, none => pure ⟨"."⟩
  return directory.join ⟨"scopecss/config.toml"⟩

def start (words : List String) : IO UInt32 := do
  let s : Surroundings := {
    cwd := ⟨toString (← IO.currentDir)⟩
    configPath := ← IO.getEnv "SCOPECSS_CONFIG"
    defaultConfigPath := ← defaultConfigPath }
  let files ← gather s words [] (← learn .empty s.cwd.place)
  let outcome := run s words files
  match ← (save files outcome.desk.files).toBaseIO with
  | .error e =>
    IO.eprint ("Error: " ++ toString e ++ "\n")
    return 1
  | .ok () =>
    IO.print outcome.desk.out
    IO.eprint outcome.desk.err
    return UInt32.ofNat outcome.exitCode

end CssModules.CommandLine

def main (words : List String) : IO UInt32 := CssModules.CommandLine.start words
