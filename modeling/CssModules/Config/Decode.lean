import CssModules.Config.Schema
import CssModules.Toml.Value

namespace CssModules

open Toml (Table)

def Toml.fields? (names : List String) : Toml → Option Table
  | .table entries => some entries
  | .array items => if items.length ≤ names.length then some (names.zip items) else none
  | _ => none

def Toml.text? : Toml → Option String
  | .string text => some text
  | _ => none

def Toml.length? : Toml → Option Nat
  | .integer n => if 0 ≤ n then some n.toNat else none
  | _ => none

def Toml.isNothing : Toml → Bool
  | .array items => items.isEmpty
  | .table entries => entries.isEmpty
  | _ => false

/-- A digest mode: its name, or a table with nothing behind its name. -/
def Toml.mode? : Toml → Option Digest.Mode
  | .string name => Digest.Mode.ofName? name
  | .table [(name, v)] => if v.isNothing then Digest.Mode.ofName? name else none
  | _ => none

def field (entries : Table) (name : String) {α : Type} (read : Toml → Option α) (default : α) :
    Option α :=
  match Toml.get? entries name with
  | some v => read v
  | none => some default

def optionalField (entries : Table) (name : String) {α : Type} (read : Toml → Option α) :
    Option (Option α) :=
  field entries name (fun v => (read v).map some) none

def sectionOf (entries : Table) (name : String) {α : Type} (read : Toml → Option α)
    (default : α) : Option α :=
  field entries name read default

def GeneralSection.ofToml? (v : Toml) : Option GeneralSection := do
  let fields ← v.fields? ["log_format"]
  return ⟨← field fields "log_format" Toml.text? GeneralSection.default.logFormat⟩

def NamingSection.ofToml? (v : Toml) : Option NamingSection := do
  let fields ← v.fields? ["template", "path_regex"]
  return ⟨← field fields "template" Toml.text? NamingSection.default.template,
    ← optionalField fields "path_regex" Toml.text?⟩

def HashSection.ofToml? (v : Toml) : Option HashSection := do
  let fields ← v.fields? ["algorithm", "encoding", "length", "salt", "mode"]
  return {
    algorithm := ← field fields "algorithm" Toml.text? HashSection.default.algorithm
    encoding := ← field fields "encoding" Toml.text? HashSection.default.encoding
    length := ← field fields "length" Toml.length? HashSection.default.length
    salt := ← optionalField fields "salt" Toml.text?
    mode := ← field fields "mode" Toml.mode? HashSection.default.mode }

def ProjectSection.ofToml? (v : Toml) : Option ProjectSection := do
  let fields ← v.fields? ["root"]
  return ⟨← optionalField fields "root" Toml.text?⟩

def Config.ofToml? (entries : Table) : Option Config := do
  return {
    general := ← sectionOf entries "general" GeneralSection.ofToml? .default
    naming := ← sectionOf entries "naming" NamingSection.ofToml? .default
    hash := ← sectionOf entries "hash" HashSection.ofToml? .default
    project := ← sectionOf entries "project" ProjectSection.ofToml? .default }

def optionalEntry (name : String) (text : Option String) : Table :=
  (text.map fun s => (name, Toml.string s)).toList

def Config.toToml (c : Config) : Table :=
  [("general", .table [("log_format", .string c.general.logFormat)]),
    ("naming", .table (("template", .string c.naming.template) ::
      optionalEntry "path_regex" c.naming.pathRegex)),
    ("hash", .table ([("algorithm", .string c.hash.algorithm),
        ("encoding", .string c.hash.encoding), ("length", .integer c.hash.length)] ++
      optionalEntry "salt" c.hash.salt ++ [("mode", .string c.hash.mode.name)])),
    ("project", .table (optionalEntry "root" c.project.root))]

end CssModules
