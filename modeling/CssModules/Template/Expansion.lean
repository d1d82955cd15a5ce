import CssModules.Path
import CssModules.Template.Segment

namespace CssModules

/-- What a name is asked for: a class in a stylesheet of a project. -/
structure Request where
  resourcePath : Path
  projectRoot : Path
  localName : String
  matchResource : Option Path
  packageName : Option String
  deriving DecidableEq, Repr

def Request.relativePath (r : Request) : String := r.resourcePath.relativeTo r.projectRoot

/-- The text that stands for a request in its digests: the resource it matches and the package
where there are any, the stylesheet, and the class, with NUL between them. -/
def Request.hashContent (r : Request) : String :=
  (match r.matchResource with
    | some m => m.relativeTo r.projectRoot ++ "\x00"
    | none => "") ++
  r.packageName.getD "" ++ r.relativePath ++ "\x00" ++ r.localName

/-- How digests are made where a placeholder does not say it. -/
structure HashSettings where
  defaults : Digest.Spec
  salt : Option String
  mode : Digest.Mode
  deriving DecidableEq, Repr

def HashSettings.saltBytes (h : HashSettings) : Digest.Bytes := (h.salt.getD "").toUTF8.toList

def HashSettings.digest (h : HashSettings) (content : String) (spec : Digest.Spec) : String :=
  h.mode.apply spec content.toUTF8.toList h.saltBytes

def HashSettings.expand (h : HashSettings) (o : Overrides) (content : String) : String :=
  h.digest content (o.resolve h.defaults)

abbrev Digests := List (Digest.Spec × String)

def Digests.recall (made : Digests) (h : HashSettings) (content : String) (spec : Digest.Spec) :
    String × Digests :=
  match made.lookup spec with
  | some text => (text, made)
  | none =>
    let text := h.digest content spec
    (text, (spec, text) :: made)

/-- The text before the last `/` of a relative path, if it has one, and the text behind it. -/
def splitLast (path : String) : Option String × String :=
  let cs := path.toList.reverse
  match cs.dropWhile (· != '/') with
  | [] => (none, path)
  | _ :: folder => (some (String.ofList folder.reverse),
      String.ofList (cs.takeWhile (· != '/')).reverse)

def Request.pathPart (r : Request) : Segment → Option String
  | .path => some (match (splitLast r.relativePath).1 with
    | some folder => if folder.isEmpty then "" else folder ++ "/"
    | none => "")
  | .name => some (((⟨(splitLast r.relativePath).2⟩ : Path).fileStem?).getD "")
  | .ext => some (match (⟨(splitLast r.relativePath).2⟩ : Path).extension? with
    | some e => "." ++ e
    | none => "")
  | .file => some r.relativePath
  | .folder => some (match (splitLast r.relativePath).1 with
    | some folder => (splitLast folder).2
    | none => "")
  | .package => some (r.packageName.getD "")
  | _ => none

/-- The groups of a match: what each of them took, if it took part. -/
abbrev Captures := List (Option String)

/-- A template on its way to a name. -/
structure Expansion where
  segments : List Segment
  deriving DecidableEq, Repr

namespace Expansion

def replace (e : Expansion) (f : Segment → Option String) : Expansion :=
  ⟨e.segments.map fun s => match f s with
    | some text => .literal text
    | none => s⟩

def replaceHashes (settings : HashSettings) (content : String) :
    (made : Digests) → List Segment → List Segment
  | _, [] => []
  | made, .hash o :: segments =>
    let (text, made) := made.recall settings content (o.resolve settings.defaults)
    .literal text :: replaceHashes settings content made segments
  | made, segment :: segments => segment :: replaceHashes settings content made segments

/-- Replaces the hash placeholders; those that say the same are digested once. -/
def expandHashes (e : Expansion) (r : Request) (settings : HashSettings) : Expansion :=
  ⟨replaceHashes settings r.hashContent [] e.segments⟩

def expandPaths (e : Expansion) (r : Request) : Expansion := e.replace r.pathPart

def substituteLocal (e : Expansion) (name : String) : Expansion :=
  e.replace fun
    | .localName => some name
    | _ => none

/-- Replaces the captures by the groups of a match. Without a match they stay, and so does a
capture of a group that does not exist; a group that took no part is empty. -/
def substituteCaptures (e : Expansion) (captures : Option Captures) : Expansion :=
  match captures with
  | some groups => e.replace fun
    | .capture n => groups[n]?.map (·.getD "")
    | _ => none
  | none => e

end Expansion

def Segment.render : Segment → String
  | .literal text => text
  | .path => "[path]"
  | .name => "[name]"
  | .ext => "[ext]"
  | .file => "[file]"
  | .folder => "[folder]"
  | .package => "[package]"
  | .localName => "[local]"
  | .hash _ => "[hash]"
  | .capture n => "[" ++ toString n ++ "]"

def Expansion.render (e : Expansion) : String := String.join (e.segments.map Segment.render)

def Template.interpolate (t : Template) (r : Request) (settings : HashSettings) : Expansion :=
  ((⟨t.segments⟩ : Expansion).expandHashes r settings).expandPaths r

end CssModules
