import CssModules.Path
import CssModules.Text.Space

namespace CssModules

/-- Where composed names come from. -/
inductive Source where
  | file (specifier : String) (path : Path)
  | here
  | everywhere
  deriving DecidableEq, Repr

/-- A composition: the class that receives names, the names, and where they come from. -/
structure Composition where
  localAlias : String
  tokens : List String
  source : Source
  deriving DecidableEq, Repr

namespace Composition

/-- Whether a declaration of this property, its case and the space around it ignored, composes. -/
def isComposing (property : List Char) : Bool :=
  let name := (Text.trim property).map Char.toLower
  name == "composes".toList || name == "compose-with".toList

def splitColon (declaration : List Char) : Option (List Char × List Char) :=
  match declaration.dropWhile (· != ':') with
  | [] => none
  | _ :: value => some (declaration.takeWhile (· != ':'), value)

/-- A value cut at its last `from` that stands between two blanks. `blankBefore` says whether a
blank stands before the text. -/
def lastFrom (blankBefore : Bool) : List Char → Option (List Char × List Char)
  | [] => none
  | c :: cs =>
    match lastFrom (Text.isSpace c) cs with
    | some (names, source) => some (c :: names, source)
    | none =>
      match blankBefore, c :: cs with
      | true, 'f' :: 'r' :: 'o' :: 'm' :: d :: rest =>
        if Text.isSpace d then some ([], d :: rest) else none
      | _, _ => none

def isQuoted (text : List Char) : Bool :=
  match text with
  | '"' :: _ :: _ => text.getLast? == some '"'
  | '\'' :: _ :: _ => text.getLast? == some '\''
  | _ => false

def fileSource (stylesheet : Path) (specifier : String) : Source :=
  .file specifier (((stylesheet.parent?).getD ⟨""⟩).join ⟨specifier⟩).normalize

/-- The names of a value, and where they come from. -/
def splitSource (stylesheet : Path) (value : List Char) : List Char × Source :=
  match lastFrom false value with
  | none => (value, .here)
  | some (names, text) =>
    let text := Text.trim text
    if isQuoted text then
      (Text.trimEnd names, fileSource stylesheet (String.ofList (text.drop 1).dropLast))
    else if text == "global".toList then (Text.trimEnd names, .everywhere)
    else (value, .here)

def tokensOf (names : List Char) : List String :=
  (Text.runs (fun c => Text.isSpace c || c == ',') names).map String.ofList

end Composition

end CssModules
