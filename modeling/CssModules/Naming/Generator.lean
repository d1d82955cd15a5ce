import CssModules.Identifier.Escape
import CssModules.Naming.Package
import CssModules.Regex.Parse
import CssModules.Template.Expansion
import CssModules.Template.Parse

namespace CssModules

/-- How names are made. -/
inductive Strategy where
  | template (t : Template)
  | callback (f : String → Path → String)

/-- Everything that names depend on beside the class, its stylesheet and their package. -/
structure Naming where
  strategy : Strategy
  hash : HashSettings
  projectRoot : Path
  pathRegex : Option Regex.Matcher

namespace Naming

def needsPackage (n : Naming) : Bool :=
  match n.strategy with
  | .template t => t.needsPackage
  | .callback _ => false

/-- What a name is asked for, the package's root being the project's if there is a package. -/
def request (n : Naming) (package : Option Package) (localName : String) (p : Path) : Request where
  resourcePath := p
  projectRoot := match package with
    | some found => found.root
    | none => n.projectRoot
  localName := localName
  matchResource := none
  packageName := package.map Package.name

def withoutAt (text : String) : String :=
  String.ofList (text.toList.map fun c => if c = '@' then '-' else c)

def expand (n : Naming) (t : Template) (package : Option Package) (localName : String) (p : Path) :
    String :=
  let text := (((t.interpolate (n.request package localName p) n.hash).substituteLocal
    localName).substituteCaptures (n.pathRegex.bind (·.captures p.text))).render
  if package.isSome then withoutAt text else text

def identifier (n : Naming) (package : Option Package) (className : String) (p : Path) : String :=
  match n.strategy with
  | .callback f => f className p
  | .template t =>
    Identifier.escapeLocal (n.expand t package (Identifier.unescape className) p)

/-- The public name of a class of a stylesheet, given the names of packages. -/
def scopedName (n : Naming) (name? : Path → Option String) (className : String) (p : Path) :
    String :=
  n.identifier (if n.needsPackage then Package.find name? p else none) className p

/-- The public name of a class of a stylesheet, and what is known of packages afterwards. -/
def generate (n : Naming) (name? : Path → Option String) (memo : Package.Memo) (className : String)
    (p : Path) : String × Package.Memo :=
  if n.needsPackage then
    let (package, memo) := memo.find name? p
    (n.identifier package className p, memo)
  else (n.identifier none className p, memo)

/-- The public names for requests that come one after the other, while what is known of packages is
kept. -/
def generateEach (n : Naming) (name? : Path → Option String) :
    Package.Memo → List (String × Path) → List String × Package.Memo
  | memo, [] => ([], memo)
  | memo, (className, p) :: requests =>
    let (identifier, memo) := n.generate name? memo className p
    let (identifiers, memo) := n.generateEach name? memo requests
    (identifier :: identifiers, memo)

end Naming

end CssModules
