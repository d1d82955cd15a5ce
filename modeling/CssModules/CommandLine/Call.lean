import CssModules.CommandLine.Grammar

namespace CssModules.CommandLine

/-- How resolved maps are written. -/
inductive Format where
  | json
  | plain
  deriving DecidableEq, Repr

/-- What is asked for. -/
inductive Request where
  | name (className : String) (file : Path) (template : Option String)
  | resolve (files : List Path) (format : Format)
  | escape (text : String) (isLocal : Bool)
  | unescape (text : String)
  | showConfig
  | showPath
  | create (force : Bool) (isLocal : Bool)
  | set (key value : String) (isLocal : Bool)
  deriving DecidableEq, Repr

/-- A call: what it asks for, how much it wants to be told, the configuration that it names, and
whether that of the project counts. -/
structure Call where
  request : Request
  verbosity : Nat
  configPath : Option Path
  ignoresProject : Bool
  deriving DecidableEq, Repr

def Level.request? (l : Level) : Option Request :=
  match l.command, l.words with
  | .name, [className, file] => some (.name className ⟨file⟩ (l.value? "template"))
  | .resolve, files =>
    some (.resolve (files.map Path.mk)
      (if l.value? "format" = some "plain" then .plain else .json))
  | .escape, [text] => some (.escape text (l.value? "local").isSome)
  | .unescape, [text] => some (.unescape text)
  | .config, [] | .configShow, [] => some .showConfig
  | .configPath, [] => some .showPath
  | .configInit, [] =>
    some (.create (l.value? "force").isSome (l.value? "local").isSome)
  | .configSet, [key, value] => some (.set key value (l.value? "local").isSome)
  | _, _ => none

/-- The call that some words make. The value of the environment counts where no level names a
configuration, and must be a path wherever a level does not. Of what all levels share the innermost
level that gives it decides. -/
def Call.parse (environment : Option String) (words : List String) : Except Stop Call := do
  let levels ← readCall (.start .program) [] words
  if environment.any (!isPath ·) && levels.any fun l => (l.value? "config").isNone then
    throw .misuse
  match levels.head?.bind Level.request? with
  | none => throw .misuse
  | some request =>
    return {
      request := request
      verbosity := ((levels.map (·.count "verbose")).find? (0 < ·)).getD 0
      configPath := ((levels.findSome? (·.value? "config")).or environment).map Path.mk
      ignoresProject := levels.any fun l => (l.value? "no-local").isSome }

end CssModules.CommandLine
