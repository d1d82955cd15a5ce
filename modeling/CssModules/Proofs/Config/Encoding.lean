import CssModules.Proofs.Config.Decoding
import CssModules.Proofs.Toml.Writing

namespace CssModules

open Toml (Table Plain ofParts arranged)

variable {fields : Table} {name : String} {v : Toml} {text : Option String} {α : Type}
  {read : Toml → Option α} {default : α}

theorem field_arranged (fields : Table) (name : String) (read : Toml → Option α) (default : α) :
    field (arranged fields) name read default = field fields name read default := by
  rw [field, field, Toml.get?_arranged]

theorem optionalField_arranged (fields : Table) (name : String) (read : Toml → Option α) :
    optionalField (arranged fields) name read = optionalField fields name read :=
  field_arranged ..

theorem field_of_get? (h : Toml.get? fields name = some v) :
    field fields name read default = read v := by
  rw [field, h]

theorem optionalField_of_get? (h : Toml.get? fields name = text.map .string) :
    optionalField fields name Toml.text? = some text := by
  rw [optionalField, field, h]
  cases text <;> rfl

theorem plain_optionalEntry (name : String) (text : Option String) :
    ∀ e ∈ optionalEntry name text, Plain e.2 := by
  intro e he
  cases text with
  | none => cases he
  | some s =>
    rw [List.mem_singleton.1 he]
    exact .text s

namespace Config

variable {c : Config}

def parts (c : Config) : List (String × Table) :=
  [("general", [("log_format", .string c.general.logFormat)]),
    ("naming", ("template", .string c.naming.template) ::
      optionalEntry "path_regex" c.naming.pathRegex),
    ("hash", [("algorithm", .string c.hash.algorithm), ("encoding", .string c.hash.encoding),
      ("length", .integer c.hash.length)] ++ optionalEntry "salt" c.hash.salt ++
        [("mode", .string c.hash.mode.name)]),
    ("project", optionalEntry "root" c.project.root)]

theorem toToml_eq_ofParts (c : Config) : c.toToml = ofParts c.parts := rfl

theorem nodup_keys (c : Config) :
    (c.parts.map Prod.fst).Nodup ∧ ∀ part ∈ c.parts, (part.2.map Prod.fst).Nodup := by
  obtain ⟨⟨_⟩, ⟨_, pathRegex⟩, ⟨_, _, _, salt, _⟩, ⟨root⟩⟩ := c
  cases pathRegex <;> cases salt <;> cases root <;> simp [parts, optionalEntry]

theorem plain_of_mem_parts (h : Toml.fits c.hash.length = true) :
    ∀ part ∈ c.parts, ∀ e ∈ part.2, Plain e.2 := by
  simp only [parts, List.forall_mem_cons, List.forall_mem_append]
  refine ⟨⟨.text _, nofun⟩, ⟨.text _, plain_optionalEntry _ _⟩, ?_, plain_optionalEntry _ _, nofun⟩
  exact ⟨⟨⟨.text _, .text _, .count _ h, nofun⟩, plain_optionalEntry _ _⟩, .text _, nofun⟩

theorem ofToml?_arranged (c : Config) :
    ofToml? (arranged (ofParts (c.parts.map fun (key, fields) => (key, arranged fields)))) =
      some c := by
  obtain ⟨hgeneral, hnaming, hhash, hproject⟩ := fieldsOf_toToml c
  obtain ⟨s₁, s₂, s₃, s₄, s₅, s₆, s₇, s₈, s₉⟩ := setting?_toToml c
  rw [Toml.setting?] at s₁ s₂ s₃ s₄ s₅ s₆ s₇ s₈ s₉
  rw [hgeneral] at s₁
  rw [hnaming] at s₂ s₃
  rw [hhash] at s₄ s₅ s₆ s₇ s₈
  rw [hproject] at s₉
  rw [ofToml?_eq_some_iff]
  simp only [sectionOf, field_arranged]
  refine ⟨?_, ?_, ?_, ?_⟩
  · change GeneralSection.ofToml? (.table (arranged _)) = some c.general
    rw [GeneralSection.ofToml?_table, field_arranged]
    exact field_of_get? s₁
  · change NamingSection.ofToml? (.table (arranged _)) = some c.naming
    rw [NamingSection.ofToml?_table, field_arranged, optionalField_arranged]
    exact ⟨field_of_get? s₂, optionalField_of_get? s₃⟩
  · change HashSection.ofToml? (.table (arranged _)) = some c.hash
    rw [HashSection.ofToml?_table]
    simp only [field_arranged, optionalField_arranged]
    refine ⟨field_of_get? s₄, field_of_get? s₅, ?_, optionalField_of_get? s₇, ?_⟩
    · exact (field_of_get? s₆).trans (Toml.length?_eq_some_iff.2 rfl)
    · exact (field_of_get? s₈).trans (Toml.mode?_string_eq_some_iff.2 rfl)
  · change ProjectSection.ofToml? (.table (arranged _)) = some c.project
    rw [ProjectSection.ofToml?_table, optionalField_arranged]
    exact optionalField_of_get? s₉

theorem parse?_write_toToml (h : Toml.fits c.hash.length = true) :
    ∃ entries, Toml.parse? (Toml.write c.toToml) = some entries ∧ ofToml? entries = some c := by
  obtain ⟨hkeys, hfields⟩ := nodup_keys c
  have hparse := Toml.parse?_write
    (fun part hpart => ⟨hfields part hpart, plain_of_mem_parts h part hpart⟩) hkeys
  rw [← toToml_eq_ofParts] at hparse
  exact ⟨_, hparse, ofToml?_arranged c⟩

end Config

end CssModules
