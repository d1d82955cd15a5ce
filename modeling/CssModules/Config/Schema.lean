import CssModules.Naming.Generator

namespace CssModules

/-- Settings of the program as a whole. -/
structure GeneralSection where
  logFormat : String
  deriving DecidableEq, Repr

/-- Settings of names: the template, and the expression that its captures refer to. -/
structure NamingSection where
  template : String
  pathRegex : Option String
  deriving DecidableEq, Repr

/-- Settings of digests; a length of zero keeps all of a digest. -/
structure HashSection where
  algorithm : String
  encoding : String
  length : Nat
  salt : Option String
  mode : Digest.Mode
  deriving DecidableEq, Repr

/-- Settings of the project. -/
structure ProjectSection where
  root : Option String
  deriving DecidableEq, Repr

/-- A configuration. -/
structure Config where
  general : GeneralSection
  naming : NamingSection
  hash : HashSection
  project : ProjectSection
  deriving DecidableEq, Repr

def GeneralSection.default : GeneralSection := ⟨"text"⟩

def NamingSection.default : NamingSection := ⟨Template.defaultSource, none⟩

def HashSection.default : HashSection where
  algorithm := Digest.Spec.default.algorithm.name
  encoding := Digest.Spec.default.encoding.name
  length := Digest.Spec.default.length.getD 0
  salt := none
  mode := .tiered

def ProjectSection.default : ProjectSection := ⟨none⟩

def Config.default : Config := ⟨.default, .default, .default, .default⟩

instance : Inhabited Config := ⟨.default⟩

def HashSection.settings (h : HashSection) : Except Error HashSettings := do
  let algorithm ← Digest.Algorithm.parse h.algorithm
  let encoding ← Digest.Encoding.parse h.encoding
  return ⟨⟨algorithm, encoding, if h.length = 0 then none else some h.length⟩, h.salt, h.mode⟩

def Config.jsonLogs (c : Config) : Bool := c.general.logFormat.toLower == "json"

def NamingSection.matcher (s : NamingSection) : Except Error (Option Regex.Matcher) :=
  match s.pathRegex with
  | none => .ok none
  | some pattern =>
    match Regex.Matcher.parse? pattern with
    | some m => .ok (some m)
    | none => .error (.configuration (.invalidPathRegex pattern))

def Config.projectRoot (c : Config) (base : Path) : Path :=
  match c.project.root with
  | some root => base.join ⟨root⟩
  | none => base

/-- The settings for naming that a configuration means in a directory. Template, digests and
expression are checked in this order. -/
def Config.namingAt (c : Config) (base : Path) : Except Error Naming := do
  let template ← Template.parse c.naming.template
  let hash ← c.hash.settings
  let matcher ← c.naming.matcher
  return ⟨.template template, hash, c.projectRoot base, matcher⟩

end CssModules
