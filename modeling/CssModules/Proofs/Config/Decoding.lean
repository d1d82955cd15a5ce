import CssModules.Config.Store
import CssModules.Proofs.Toml.Merging

namespace CssModules

open Toml (Table)

variable {entries fields : Table} {part name : String} {v : Toml} {c : Config} {α : Type}

namespace Toml

def fieldsOf (entries : Table) (part : String) : Table :=
  match get? entries part with
  | some (.table fields) => fields
  | _ => []

/-- What a table says about a field of a section that is a table too. -/
def setting? (entries : Table) (part name : String) : Option Toml :=
  get? (fieldsOf entries part) name

def IsArrayAt (entries : Table) (part : String) : Prop :=
  ∃ items, get? entries part = some (.array items)

def NamesMode (entries : Table) : Prop :=
  ∀ v, setting? entries "hash" "mode" = some v → ∃ mode, v = .string mode

theorem fieldsOf_of_none (h : get? entries part = none) : fieldsOf entries part = [] := by
  rw [fieldsOf, h]

theorem fieldsOf_of_table (h : get? entries part = some (.table fields)) :
    fieldsOf entries part = fields := by
  rw [fieldsOf, h]

theorem not_isArrayAt_of_table (h : get? entries part = some (.table fields)) :
    ¬IsArrayAt entries part := by
  rintro ⟨items, hitems⟩
  cases h.symm.trans hitems

theorem text?_eq_some_iff {text : String} : v.text? = some text ↔ v = .string text := by
  cases v <;> simp [text?]

theorem length?_eq_some_iff {n : Nat} : v.length? = some n ↔ v = .integer n := by
  cases v with
  | integer m =>
    rw [length?, integer.injEq]
    split
    · rw [Option.some.injEq]
      omega
    · exact iff_of_false nofun (by omega)
  | _ => exact iff_of_false nofun nofun

theorem mode?_string_eq_some_iff {text : String} {mode : Digest.Mode} :
    (string text).mode? = some mode ↔ text = mode.name := by
  rw [mode?, Digest.Mode.ofName?]
  constructor
  · intro h
    have hname := List.find?_some h
    exact (beq_iff_eq.1 hname).symm
  · rintro rfl
    cases mode <;> rfl

theorem table_or_array_of_fields? {names : List String} (h : v.fields? names = some fields) :
    (∃ entries, v = .table entries) ∨ ∃ items, v = .array items := by
  cases v with
  | table entries => exact .inl ⟨entries, rfl⟩
  | array items => exact .inr ⟨items, rfl⟩
  | _ => cases h

end Toml

open Toml (fieldsOf setting? IsArrayAt NamesMode)

theorem field_eq_some {read : Toml → Option α} {f : α → Toml} {default x : α}
    (hread : ∀ v x, Toml.get? fields name = some v → read v = some x → v = f x)
    (h : field fields name read default = some x) :
    some (f x) = (Toml.get? fields name).or (some (f default)) := by
  rw [field] at h
  split at h
  · next v hv =>
    rw [hv, hread v x hv h]
    rfl
  · next hnone =>
    cases h
    rw [hnone]
    rfl

theorem optionalField_eq_some {x : Option String}
    (h : optionalField fields name Toml.text? = some x) :
    x.map Toml.string = Toml.get? fields name := by
  rw [optionalField, field] at h
  split at h
  · next v hv =>
    obtain ⟨text, htext, rfl⟩ := Option.map_eq_some_iff.1 h
    rw [hv, Toml.text?_eq_some_iff.1 htext]
    rfl
  · next hnone =>
    cases h
    rw [hnone]
    rfl

theorem GeneralSection.ofToml?_table {s : GeneralSection} :
    ofToml? (.table fields) = some s ↔
      field fields "log_format" Toml.text? GeneralSection.default.logFormat = some s.logFormat := by
  cases s
  simp [ofToml?, Toml.fields?, Option.bind_eq_some_iff]

theorem NamingSection.ofToml?_table {s : NamingSection} :
    ofToml? (.table fields) = some s ↔
      field fields "template" Toml.text? NamingSection.default.template = some s.template ∧
        optionalField fields "path_regex" Toml.text? = some s.pathRegex := by
  cases s
  simp [ofToml?, Toml.fields?, Option.bind_eq_some_iff]

theorem HashSection.ofToml?_table {s : HashSection} :
    ofToml? (.table fields) = some s ↔
      field fields "algorithm" Toml.text? HashSection.default.algorithm = some s.algorithm ∧
        field fields "encoding" Toml.text? HashSection.default.encoding = some s.encoding ∧
          field fields "length" Toml.length? HashSection.default.length = some s.length ∧
            optionalField fields "salt" Toml.text? = some s.salt ∧
              field fields "mode" Toml.mode? HashSection.default.mode = some s.mode := by
  cases s
  simp [ofToml?, Toml.fields?, Option.bind_eq_some_iff]

theorem ProjectSection.ofToml?_table {s : ProjectSection} :
    ofToml? (.table fields) = some s ↔ optionalField fields "root" Toml.text? = some s.root := by
  cases s
  simp [ofToml?, Toml.fields?, Option.bind_eq_some_iff]

namespace Config

theorem ofToml?_eq_some_iff :
    ofToml? entries = some c ↔
      sectionOf entries "general" GeneralSection.ofToml? .default = some c.general ∧
        sectionOf entries "naming" NamingSection.ofToml? .default = some c.naming ∧
          sectionOf entries "hash" HashSection.ofToml? .default = some c.hash ∧
            sectionOf entries "project" ProjectSection.ofToml? .default = some c.project := by
  cases c
  simp [ofToml?, Option.bind_eq_some_iff]

theorem section_cases (h : ofToml? entries = some c)
    (hpart : part ∈ ["general", "naming", "hash", "project"]) :
    Toml.get? entries part = none ∨ (∃ fields, Toml.get? entries part = some (.table fields)) ∨
      IsArrayAt entries part := by
  have hcases {α : Type} {read : Toml → Option α} {default x : α} (names : List String)
      (hread : ∀ v, v.fields? names = none → read v = none)
      (h : sectionOf entries part read default = some x) :
      Toml.get? entries part = none ∨ (∃ fields, Toml.get? entries part = some (.table fields)) ∨
        IsArrayAt entries part := by
    rw [sectionOf, field] at h
    split at h
    · next v hv =>
      have hne : v.fields? names ≠ none := by
        intro hnone
        rw [hread v hnone] at h
        cases h
      obtain ⟨fields, hfields⟩ := Option.ne_none_iff_exists'.1 hne
      rcases Toml.table_or_array_of_fields? hfields with ⟨fields, rfl⟩ | ⟨items, rfl⟩
      · exact .inr (.inl ⟨fields, hv⟩)
      · exact .inr (.inr ⟨items, hv⟩)
    · next hnone => exact .inl hnone
  obtain ⟨hgeneral, hnaming, hhash, hproject⟩ := ofToml?_eq_some_iff.1 h
  simp only [List.mem_cons, List.not_mem_nil, or_false] at hpart
  rcases hpart with rfl | rfl | rfl | rfl
  · refine hcases ["log_format"] (fun v hv => ?_) hgeneral
    rw [GeneralSection.ofToml?, hv]
    rfl
  · refine hcases ["template", "path_regex"] (fun v hv => ?_) hnaming
    rw [NamingSection.ofToml?, hv]
    rfl
  · refine hcases ["algorithm", "encoding", "length", "salt", "mode"] (fun v hv => ?_) hhash
    rw [HashSection.ofToml?, hv]
    rfl
  · refine hcases ["root"] (fun v hv => ?_) hproject
    rw [ProjectSection.ofToml?, hv]
    rfl

theorem sections_of_fieldsOf (h : ofToml? entries = some c) :
    (¬IsArrayAt entries "general" →
        GeneralSection.ofToml? (.table (fieldsOf entries "general")) = some c.general) ∧
      (¬IsArrayAt entries "naming" →
        NamingSection.ofToml? (.table (fieldsOf entries "naming")) = some c.naming) ∧
      (¬IsArrayAt entries "hash" →
        HashSection.ofToml? (.table (fieldsOf entries "hash")) = some c.hash) ∧
      (¬IsArrayAt entries "project" →
        ProjectSection.ofToml? (.table (fieldsOf entries "project")) = some c.project) := by
  have hread {α : Type} {part : String} {read : Toml → Option α} {default x : α}
      (hpart : part ∈ ["general", "naming", "hash", "project"])
      (hdefault : read (.table []) = some default)
      (hx : sectionOf entries part read default = some x) (harray : ¬IsArrayAt entries part) :
      read (.table (fieldsOf entries part)) = some x := by
    rw [sectionOf, field] at hx
    rcases section_cases h hpart with hnone | ⟨fields, hfields⟩ | hitems
    · simpa [Toml.fieldsOf_of_none hnone, hnone, hdefault] using hx
    · simpa [Toml.fieldsOf_of_table hfields, hfields] using hx
    · exact absurd hitems harray
  obtain ⟨hgeneral, hnaming, hhash, hproject⟩ := ofToml?_eq_some_iff.1 h
  exact ⟨hread (by simp) rfl hgeneral, hread (by simp) rfl hnaming, hread (by simp) rfl hhash,
    hread (by simp) rfl hproject⟩

theorem settingKeys_split : settingKeys.filterMap splitKey =
    [("general", "log_format"), ("naming", "template"), ("naming", "path_regex"),
      ("hash", "algorithm"), ("hash", "encoding"), ("hash", "length"), ("hash", "salt"),
      ("hash", "mode"), ("project", "root")] := by
  decide +kernel

theorem part_of_setting (h : (part, name) ∈ settingKeys.filterMap splitKey) :
    part ∈ ["general", "naming", "hash", "project"] := by
  rw [settingKeys_split] at h
  revert h
  simp only [List.mem_cons, Prod.mk.injEq, List.not_mem_nil, or_false]
  tauto

theorem fieldsOf_toToml (c : Config) :
    fieldsOf c.toToml "general" = [("log_format", .string c.general.logFormat)] ∧
      fieldsOf c.toToml "naming" = ("template", .string c.naming.template) ::
        optionalEntry "path_regex" c.naming.pathRegex ∧
      fieldsOf c.toToml "hash" = [("algorithm", .string c.hash.algorithm),
        ("encoding", .string c.hash.encoding), ("length", .integer c.hash.length)] ++
          optionalEntry "salt" c.hash.salt ++ [("mode", .string c.hash.mode.name)] ∧
      fieldsOf c.toToml "project" = optionalEntry "root" c.project.root := by
  simp [fieldsOf, Toml.get?, toToml, List.lookup_cons]

theorem get?_optionalEntry (name : String) (text : Option String) (entries : Table) (key : String) :
    Toml.get? (optionalEntry name text ++ entries) key =
      if key = name then (text.map Toml.string).or (Toml.get? entries key)
      else Toml.get? entries key := by
  cases text with
  | none => simp [optionalEntry]
  | some text => simp [optionalEntry, Toml.get?_cons]

theorem setting?_toToml (c : Config) :
    setting? c.toToml "general" "log_format" = some (.string c.general.logFormat) ∧
      setting? c.toToml "naming" "template" = some (.string c.naming.template) ∧
      setting? c.toToml "naming" "path_regex" = c.naming.pathRegex.map Toml.string ∧
      setting? c.toToml "hash" "algorithm" = some (.string c.hash.algorithm) ∧
      setting? c.toToml "hash" "encoding" = some (.string c.hash.encoding) ∧
      setting? c.toToml "hash" "length" = some (.integer c.hash.length) ∧
      setting? c.toToml "hash" "salt" = c.hash.salt.map Toml.string ∧
      setting? c.toToml "hash" "mode" = some (.string c.hash.mode.name) ∧
      setting? c.toToml "project" "root" = c.project.root.map Toml.string := by
  obtain ⟨hgeneral, hnaming, hhash, hproject⟩ := fieldsOf_toToml c
  have hnil (name : String) : Toml.get? [] name = none := rfl
  have hlast (name : String) (text : Option String) :
      Toml.get? (optionalEntry name text) name = text.map Toml.string := by
    simpa [hnil] using get?_optionalEntry name text [] name
  simp [setting?, hgeneral, hnaming, hhash, hproject, Toml.get?_cons, get?_optionalEntry, hlast,
    hnil]

theorem setting?_toToml_ne_table (h : (part, name) ∈ settingKeys.filterMap splitKey) :
    setting? c.toToml part name ≠ some (.table fields) := by
  obtain ⟨s₁, s₂, s₃, s₄, s₅, s₆, s₇, s₈, s₉⟩ := setting?_toToml c
  rw [settingKeys_split] at h
  simp only [List.mem_cons, Prod.mk.injEq, List.not_mem_nil, or_false] at h
  rcases h with ⟨rfl, rfl⟩ | ⟨rfl, rfl⟩ | ⟨rfl, rfl⟩ | ⟨rfl, rfl⟩ | ⟨rfl, rfl⟩ | ⟨rfl, rfl⟩ |
    ⟨rfl, rfl⟩ | ⟨rfl, rfl⟩ | ⟨rfl, rfl⟩
  all_goals simp [*]

theorem setting?_toToml_of_ofToml? (h : ofToml? entries = some c)
    (hmode : part = "hash" → NamesMode entries)
    (hsetting : (part, name) ∈ settingKeys.filterMap splitKey) (harray : ¬IsArrayAt entries part) :
    setting? c.toToml part name =
      (setting? entries part name).or (setting? Config.default.toToml part name) := by
  obtain ⟨hgeneral, hnaming, hhash, hproject⟩ := sections_of_fieldsOf h
  obtain ⟨s₁, s₂, s₃, s₄, s₅, s₆, s₇, s₈, s₉⟩ := setting?_toToml c
  obtain ⟨d₁, d₂, d₃, d₄, d₅, d₆, d₇, d₈, d₉⟩ := setting?_toToml Config.default
  have htext {v : Toml} {x : String} : v.text? = some x → v = .string x := Toml.text?_eq_some_iff.1
  have hoptional {fields : Table} {name : String} {x : Option String}
      (h : optionalField fields name Toml.text? = some x) :
      x.map Toml.string = (Toml.get? fields name).or none :=
    (optionalField_eq_some h).trans Option.or_none.symm
  rw [settingKeys_split] at hsetting
  simp only [List.mem_cons, Prod.mk.injEq, List.not_mem_nil, or_false] at hsetting
  rcases hsetting with ⟨rfl, rfl⟩ | ⟨rfl, rfl⟩ | ⟨rfl, rfl⟩ | ⟨rfl, rfl⟩ | ⟨rfl, rfl⟩ | ⟨rfl, rfl⟩ |
    ⟨rfl, rfl⟩ | ⟨rfl, rfl⟩ | ⟨rfl, rfl⟩
  · rw [s₁, d₁]
    exact field_eq_some (fun _ _ _ => htext) (GeneralSection.ofToml?_table.1 (hgeneral harray))
  · rw [s₂, d₂]
    exact field_eq_some (fun _ _ _ => htext) (NamingSection.ofToml?_table.1 (hnaming harray)).1
  · rw [s₃, d₃]
    exact hoptional (NamingSection.ofToml?_table.1 (hnaming harray)).2
  · rw [s₄, d₄]
    exact field_eq_some (fun _ _ _ => htext) (HashSection.ofToml?_table.1 (hhash harray)).1
  · rw [s₅, d₅]
    exact field_eq_some (fun _ _ _ => htext) (HashSection.ofToml?_table.1 (hhash harray)).2.1
  · rw [s₆, d₆]
    exact field_eq_some (f := fun n : Nat => .integer n)
      (fun _ _ _ => Toml.length?_eq_some_iff.1) (HashSection.ofToml?_table.1 (hhash harray)).2.2.1
  · rw [s₇, d₇]
    exact hoptional (HashSection.ofToml?_table.1 (hhash harray)).2.2.2.1
  · -- A mode may also be given as a table, so that the name is not what the table says.
    rw [s₈, d₈]
    refine field_eq_some (f := fun mode => .string mode.name) (fun v x hv hx => ?_)
      (HashSection.ofToml?_table.1 (hhash harray)).2.2.2.2
    obtain ⟨text, rfl⟩ := hmode rfl v hv
    rw [Toml.mode?_string_eq_some_iff.1 hx]
  · rw [s₉, d₉]
    exact hoptional (ProjectSection.ofToml?_table.1 (hproject harray))

/-- Whether names can be made with a configuration: its template, its digest and its expression mean
something. -/
structure Sound (c : Config) : Prop where
  template : ∃ t, Template.parse c.naming.template = .ok t
  algorithm : ∃ a, Digest.Algorithm.parse c.hash.algorithm = .ok a
  encoding : ∃ e, Digest.Encoding.parse c.hash.encoding = .ok e
  matcher : ∃ m, c.naming.matcher = .ok m

theorem namingAt_isOk_iff {directory : Path} :
    (∃ naming, c.namingAt directory = .ok naming) ↔ c.Sound := by
  constructor
  · rintro ⟨naming, h⟩
    obtain ⟨t, ht, h⟩ := bind_eq_ok_iff.1 h
    obtain ⟨settings, hsettings, h⟩ := bind_eq_ok_iff.1 h
    obtain ⟨m, hm, -⟩ := bind_eq_ok_iff.1 h
    obtain ⟨a, ha, hsettings⟩ := bind_eq_ok_iff.1 hsettings
    obtain ⟨e, he, -⟩ := bind_eq_ok_iff.1 hsettings
    exact ⟨⟨t, ht⟩, ⟨a, ha⟩, ⟨e, he⟩, ⟨m, hm⟩⟩
  · rintro ⟨⟨t, ht⟩, ⟨a, ha⟩, ⟨e, he⟩, ⟨m, hm⟩⟩
    have hsettings : ∃ settings, c.hash.settings = .ok settings := by
      rw [HashSection.settings, ha, he]
      exact ⟨_, rfl⟩
    obtain ⟨settings, hsettings⟩ := hsettings
    rw [namingAt, ht, hsettings, hm]
    exact ⟨_, rfl⟩

theorem exists_naming {d : Path} (h : (c.namingAt d).toBool = true) :
    ∃ naming, c.namingAt d = .ok naming := by
  cases hn : c.namingAt d with
  | ok naming => exact ⟨naming, rfl⟩
  | error e =>
    rw [hn] at h
    cases h

end Config

end CssModules
