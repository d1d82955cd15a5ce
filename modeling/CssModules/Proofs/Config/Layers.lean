import CssModules.Proofs.Config.Decoding
import CssModules.Proofs.Toml.Reading

namespace CssModules

open Toml (Table fieldsOf setting? IsArrayAt NamesMode Ordered)

variable {base overlay entries : Table} {part name : String} {user own : Config} {α : Type}

namespace Toml

theorem get?_mergeEntries_flat (base : Table) (h : Ordered (.table overlay))
    (hflat : ∀ fields, get? overlay name ≠ some (.table fields)) :
    get? (mergeEntries base overlay) name = (get? overlay name).or (get? base name) := by
  rw [get?_mergeEntries h]
  cases hv : get? overlay name with
  | none => rfl
  | some v =>
    cases get? base name with
    | none => rfl
    | some old =>
      exact congrArg some (merge_of_right fun fields he => hflat fields (he ▸ hv))

theorem Ordered.fieldsOf (h : Ordered (.table entries)) (part : String) :
    Ordered (.table (fieldsOf entries part)) := by
  rw [Toml.fieldsOf]
  split
  · next hfields => exact h.get? hfields
  · exact .nil

end Toml

theorem field_over {b o m : Table} {read : Toml → Option α} {default x y : α}
    (hm : Toml.get? m name = (Toml.get? o name).or (Toml.get? b name))
    (hb : field b name read default = some x) (ho : field o name read default = some y) :
    ∃ z, field m name read default = some z ∧ (z = x ∨ z = y) := by
  rw [field] at ho ⊢
  cases hv : Toml.get? o name with
  | none =>
    rw [hv, Option.none_or] at hm
    rw [hm]
    exact ⟨x, hb, .inl rfl⟩
  | some v =>
    rw [hv] at hm ho
    rw [hm]
    exact ⟨y, ho, .inr rfl⟩

theorem GeneralSection.over {b o m : Table} {x y : GeneralSection}
    (hm : ∀ name ∈ ["log_format"],
      Toml.get? m name = (Toml.get? o name).or (Toml.get? b name))
    (hb : ofToml? (.table b) = some x) (ho : ofToml? (.table o) = some y) :
    ∃ z, ofToml? (.table m) = some z := by
  obtain ⟨logFormat, h, -⟩ :=
    field_over (hm _ (by simp)) (ofToml?_table.1 hb) (ofToml?_table.1 ho)
  exact ⟨⟨logFormat⟩, ofToml?_table.2 h⟩

theorem NamingSection.over {b o m : Table} {x y : NamingSection}
    (hm : ∀ name ∈ ["template", "path_regex"],
      Toml.get? m name = (Toml.get? o name).or (Toml.get? b name))
    (hb : ofToml? (.table b) = some x) (ho : ofToml? (.table o) = some y) :
    ∃ z, ofToml? (.table m) = some z ∧ (z.template = x.template ∨ z.template = y.template) ∧
      (z.pathRegex = x.pathRegex ∨ z.pathRegex = y.pathRegex) := by
  obtain ⟨hb₁, hb₂⟩ := ofToml?_table.1 hb
  obtain ⟨ho₁, ho₂⟩ := ofToml?_table.1 ho
  obtain ⟨template, h₁, htemplate⟩ := field_over (hm _ (by simp)) hb₁ ho₁
  obtain ⟨pathRegex, h₂, hregex⟩ := field_over (hm _ (by simp)) hb₂ ho₂
  exact ⟨⟨template, pathRegex⟩, ofToml?_table.2 ⟨h₁, h₂⟩, htemplate, hregex⟩

theorem HashSection.over {b o m : Table} {x y : HashSection}
    (hm : ∀ name ∈ ["algorithm", "encoding", "length", "salt", "mode"],
      Toml.get? m name = (Toml.get? o name).or (Toml.get? b name))
    (hb : ofToml? (.table b) = some x) (ho : ofToml? (.table o) = some y) :
    ∃ z, ofToml? (.table m) = some z ∧ (z.algorithm = x.algorithm ∨ z.algorithm = y.algorithm) ∧
      (z.encoding = x.encoding ∨ z.encoding = y.encoding) := by
  obtain ⟨hb₁, hb₂, hb₃, hb₄, hb₅⟩ := ofToml?_table.1 hb
  obtain ⟨ho₁, ho₂, ho₃, ho₄, ho₅⟩ := ofToml?_table.1 ho
  obtain ⟨algorithm, h₁, halgorithm⟩ := field_over (hm _ (by simp)) hb₁ ho₁
  obtain ⟨encoding, h₂, hencoding⟩ := field_over (hm _ (by simp)) hb₂ ho₂
  obtain ⟨length, h₃, -⟩ := field_over (hm _ (by simp)) hb₃ ho₃
  obtain ⟨salt, h₄, -⟩ := field_over (hm _ (by simp)) hb₄ ho₄
  obtain ⟨mode, h₅, -⟩ := field_over (hm _ (by simp)) hb₅ ho₅
  exact ⟨⟨algorithm, encoding, length, salt, mode⟩, ofToml?_table.2 ⟨h₁, h₂, h₃, h₄, h₅⟩,
    halgorithm, hencoding⟩

theorem ProjectSection.over {b o m : Table} {x y : ProjectSection}
    (hm : ∀ name ∈ ["root"], Toml.get? m name = (Toml.get? o name).or (Toml.get? b name))
    (hb : ofToml? (.table b) = some x) (ho : ofToml? (.table o) = some y) :
    ∃ z, ofToml? (.table m) = some z := by
  obtain ⟨root, h, -⟩ := field_over (hm _ (by simp)) (ofToml?_table.1 hb) (ofToml?_table.1 ho)
  exact ⟨⟨root⟩, ofToml?_table.2 h⟩

theorem sectionOf_over {read : Toml → Option α} {default x y : α} {R : α → α → α → Prop}
    (hordered : Ordered (.table overlay)) (hbase : sectionOf base part read default = some x)
    (hoverlay : sectionOf overlay part read default = some y) (hleft : R x y x) (hright : R x y y)
    (htables : ¬IsArrayAt overlay part →
      ∀ b, read (.table b) = some x → read (.table (fieldsOf overlay part)) = some y →
        ∃ z, read (.table (Toml.mergeEntries b (fieldsOf overlay part))) = some z ∧ R x y z) :
    ∃ z, sectionOf (Toml.mergeEntries base overlay) part read default = some z ∧ R x y z ∧
      (IsArrayAt base part ∨ IsArrayAt overlay part →
        z = if (Toml.get? overlay part).isSome then y else x) := by
  rw [sectionOf, field] at hbase hoverlay ⊢
  rw [Toml.get?_mergeEntries hordered]
  cases hv : Toml.get? overlay part with
  | none => exact ⟨x, by simpa using hbase, hleft, fun _ => rfl⟩
  | some v =>
    rw [hv] at hoverlay
    cases hold : Toml.get? base part with
    | none => exact ⟨y, by simpa using hoverlay, hright, fun _ => rfl⟩
    | some old =>
      rw [hold] at hbase
      by_cases hold' : ∃ b, old = .table b
      · obtain ⟨b, rfl⟩ := hold'
        by_cases hv' : ∃ o, v = .table o
        · obtain ⟨o, rfl⟩ := hv'
          have hfields : fieldsOf overlay part = o := Toml.fieldsOf_of_table hv
          have harray : ¬IsArrayAt base part := Toml.not_isArrayAt_of_table hold
          have harray' : ¬IsArrayAt overlay part := Toml.not_isArrayAt_of_table hv
          obtain ⟨z, hz, hR⟩ := htables harray' b hbase (hfields ▸ hoverlay)
          refine ⟨z, ?_, hR, fun h => absurd h (not_or.2 ⟨harray, harray'⟩)⟩
          rw [hfields] at hz
          simpa [Toml.merge_table] using hz
        · refine ⟨y, ?_, hright, fun _ => rfl⟩
          simpa [Toml.merge_of_right fun fields he => hv' ⟨fields, he⟩] using hoverlay
      · refine ⟨y, ?_, hright, fun _ => rfl⟩
        simpa [Toml.merge_of_left fun fields he => hold' ⟨fields, he⟩] using hoverlay

namespace Config

variable {c : Config}

theorem mode_setting : ("hash", "mode") ∈ settingKeys.filterMap splitKey := by
  rw [settingKeys_split]
  simp

theorem setting?_ne_table (h : ofToml? entries = some c) (hmode : NamesMode entries)
    (hsetting : (part, name) ∈ settingKeys.filterMap splitKey) (harray : ¬IsArrayAt entries part)
    (fields : Table) : setting? entries part name ≠ some (.table fields) := by
  intro hfields
  have hlaw := setting?_toToml_of_ofToml? h (fun _ => hmode) hsetting harray
  rw [hfields] at hlaw
  exact setting?_toToml_ne_table hsetting hlaw

theorem setting?_mergeEntries (hordered : Ordered (.table overlay))
    (hbase : ofToml? base = some user) (hoverlay : ofToml? overlay = some own)
    (hmode : NamesMode overlay) (hsetting : (part, name) ∈ settingKeys.filterMap splitKey)
    (harray : ¬IsArrayAt base part) (harray' : ¬IsArrayAt overlay part) :
    ¬IsArrayAt (Toml.mergeEntries base overlay) part ∧
      setting? (Toml.mergeEntries base overlay) part name =
        (setting? overlay part name).or (setting? base part name) := by
  have hmerged := Toml.get?_mergeEntries hordered base part
  have hpart := part_of_setting hsetting
  rcases section_cases hoverlay hpart with hv | ⟨o, hv⟩ | hv
  · rw [hv, Option.map_none, Option.none_or] at hmerged
    refine ⟨fun ⟨items, hitems⟩ => harray ⟨items, hmerged ▸ hitems⟩, ?_⟩
    rw [setting?, setting?, setting?, Toml.fieldsOf_of_none hv, fieldsOf, fieldsOf, hmerged]
    rfl
  · have hfields : fieldsOf overlay part = o := Toml.fieldsOf_of_table hv
    have hflat := setting?_ne_table hoverlay hmode hsetting harray'
    have hover := Toml.get?_mergeEntries_flat (fieldsOf base part) (hordered.fieldsOf part) hflat
    have htable : ∃ m, Toml.get? (Toml.mergeEntries base overlay) part = some (.table m) ∧
        Toml.get? m name = (Toml.get? o name).or (Toml.get? (fieldsOf base part) name) := by
      rw [hmerged, hv]
      rcases section_cases hbase hpart with hold | ⟨b, hold⟩ | hold
      · refine ⟨o, by rw [hold]; rfl, ?_⟩
        rw [Toml.fieldsOf_of_none hold]
        exact Option.or_none.symm
      · refine ⟨Toml.mergeEntries b o, by rw [hold]; exact congrArg some Toml.merge_table, ?_⟩
        rw [Toml.fieldsOf_of_table hold, hfields] at hover
        rw [Toml.fieldsOf_of_table hold, hover]
      · exact absurd hold harray
    obtain ⟨m, hm, hname⟩ := htable
    refine ⟨Toml.not_isArrayAt_of_table hm, ?_⟩
    rw [setting?, setting?, setting?, hfields, Toml.fieldsOf_of_table hm]
    exact hname
  · exact absurd hv harray'

theorem ofToml?_mergeEntries (hordered : Ordered (.table overlay))
    (hbase : ofToml? base = some user) (hoverlay : ofToml? overlay = some own)
    (hmode : NamesMode overlay) :
    ∃ c, ofToml? (Toml.mergeEntries base overlay) = some c ∧ (user.Sound → own.Sound → c.Sound) ∧
      ∀ part ∈ ["general", "naming", "hash", "project"],
        IsArrayAt base part ∨ IsArrayAt overlay part → Toml.get? c.toToml part =
          Toml.get? (if (Toml.get? overlay part).isSome then own else user).toToml part := by
  obtain ⟨hb₁, hb₂, hb₃, hb₄⟩ := ofToml?_eq_some_iff.1 hbase
  obtain ⟨ho₁, ho₂, ho₃, ho₄⟩ := ofToml?_eq_some_iff.1 hoverlay
  have hover {part : String} {names : List String}
      (hnames : ∀ name ∈ names, (part, name) ∈ settingKeys.filterMap splitKey)
      (harray : ¬IsArrayAt overlay part) (b : Table) : ∀ name ∈ names,
        Toml.get? (Toml.mergeEntries b (fieldsOf overlay part)) name =
          (Toml.get? (fieldsOf overlay part) name).or (Toml.get? b name) := fun name hname =>
    Toml.get?_mergeEntries_flat b (hordered.fieldsOf part)
      (setting?_ne_table hoverlay hmode (hnames name hname) harray)
  rw [settingKeys_split] at hover
  obtain ⟨general, h₁, -, hgeneral⟩ := sectionOf_over (R := fun _ _ _ => True) hordered hb₁ ho₁
    trivial trivial fun harray b hb ho => by
      obtain ⟨z, hz⟩ := GeneralSection.over (hover (by simp) harray b) hb ho
      exact ⟨z, hz, trivial⟩
  obtain ⟨naming, h₂, ⟨htemplate, hregex⟩, hnaming⟩ := sectionOf_over
    (R := fun x y z => (z.template = x.template ∨ z.template = y.template) ∧
      (z.pathRegex = x.pathRegex ∨ z.pathRegex = y.pathRegex)) hordered hb₂ ho₂
    ⟨.inl rfl, .inl rfl⟩ ⟨.inr rfl, .inr rfl⟩
    fun harray b hb ho => NamingSection.over (hover (by simp) harray b) hb ho
  obtain ⟨hash, h₃, ⟨halgorithm, hencoding⟩, hhash⟩ := sectionOf_over
    (R := fun x y z => (z.algorithm = x.algorithm ∨ z.algorithm = y.algorithm) ∧
      (z.encoding = x.encoding ∨ z.encoding = y.encoding)) hordered hb₃ ho₃
    ⟨.inl rfl, .inl rfl⟩ ⟨.inr rfl, .inr rfl⟩
    fun harray b hb ho => HashSection.over (hover (by simp) harray b) hb ho
  obtain ⟨project, h₄, -, hproject⟩ := sectionOf_over (R := fun _ _ _ => True) hordered hb₄ ho₄
    trivial trivial fun harray b hb ho => by
      obtain ⟨z, hz⟩ := ProjectSection.over (hover (by simp) harray b) hb ho
      exact ⟨z, hz, trivial⟩
  refine ⟨⟨general, naming, hash, project⟩, ofToml?_eq_some_iff.2 ⟨h₁, h₂, h₃, h₄⟩, ?_, ?_⟩
  · intro huser hown
    constructor
    · rcases htemplate with h | h
      · exact h ▸ huser.template
      · exact h ▸ hown.template
    · rcases halgorithm with h | h
      · exact h ▸ huser.algorithm
      · exact h ▸ hown.algorithm
    · rcases hencoding with h | h
      · exact h ▸ huser.encoding
      · exact h ▸ hown.encoding
    · rw [NamingSection.matcher]
      rcases hregex with h | h
      · exact h ▸ huser.matcher
      · exact h ▸ hown.matcher
  · intro part hpart harray
    simp only [List.mem_cons, List.not_mem_nil, or_false] at hpart
    rcases hpart with rfl | rfl | rfl | rfl
    · simp only [toToml, hgeneral harray]
      split <;> rfl
    · simp only [toToml, hnaming harray]
      split <;> rfl
    · simp only [toToml, hhash harray]
      split <;> rfl
    · simp only [toToml, hproject harray]
      split <;> rfl

theorem readTable_ordered {t : FileTree} {cwd : Place} {access : Path → Access} {p : Path}
    (h : readTable t cwd access p = .ok entries) : Ordered (.table entries) := by
  rw [readTable] at h
  split at h
  · cases h
  · split at h
    · next hparse =>
      cases h
      exact Toml.parse?_ordered hparse
    · cases h

theorem baseTable_ordered {t : FileTree} {cwd : Place} {p : Path}
    (h : baseTable t cwd p = .ok entries) : Ordered (.table entries) := by
  rw [baseTable] at h
  split at h
  · exact readTable_ordered h
  · cases h
    exact .nil

theorem decode_eq_ok_iff {p : Path} : decode p entries = .ok c ↔ ofToml? entries = some c := by
  rw [decode]
  split
  · next hc => simp [hc]
  · next hnone => simp [hnone]

theorem loadMerged_eq_ok_iff {t : FileTree} {cwd : Place} {p project : Path} :
    loadMerged t cwd p (some project) = .ok c ↔
      ∃ base overlay, baseTable t cwd p = .ok base ∧
        readTable t cwd .readingConfig project = .ok overlay ∧
          ofToml? (Toml.mergeEntries base overlay) = some c := by
  simp only [loadMerged, bind_eq_ok_iff, decode_eq_ok_iff]
  constructor
  · rintro ⟨base, hbase, overlay, hoverlay, h⟩
    exact ⟨base, overlay, hbase, hoverlay, h⟩
  · rintro ⟨base, overlay, hbase, hoverlay, h⟩
    exact ⟨base, hbase, overlay, hoverlay, h⟩

/-- The configuration of a project over that of its user: names can be made with it wherever they
can with both. In a section that neither writes as an array, each setting is the project's, else the
user's, else the default; a section that one of them writes as an array is that of one of them. -/
theorem loadMerged_layers (t : FileTree) (cwd : Place) (p project : Path)
    (hbase : baseTable t cwd p = .ok base)
    (hoverlay : readTable t cwd .readingConfig project = .ok overlay)
    (huser : ofToml? base = some user) (hown : ofToml? overlay = some own)
    (huserNames : ∃ directory naming, user.namingAt directory = .ok naming)
    (hownNames : ∃ directory naming, own.namingAt directory = .ok naming)
    (hmode : NamesMode base) (hmode' : NamesMode overlay) :
    ∃ c, loadMerged t cwd p (some project) = .ok c ∧
      (∀ directory, ∃ naming, c.namingAt directory = .ok naming) ∧
      (∀ key ∈ settingKeys, ∀ part name, splitKey key = some (part, name) →
        (¬IsArrayAt base part → ¬IsArrayAt overlay part → setting? c.toToml part name =
          (setting? overlay part name).or
            ((setting? base part name).or (setting? Config.default.toToml part name))) ∧
        (IsArrayAt base part ∨ IsArrayAt overlay part → Toml.get? c.toToml part =
          Toml.get? (if (Toml.get? overlay part).isSome then own else user).toToml part)) ∧
      (overlay = [] → load t cwd p = .ok c) ∧
      (t.hasNode cwd p = false → ∀ q, readTable t cwd .readingConfig q = .ok [] →
        loadMerged t cwd q (some project) = .ok c) ∧
      Toml.mergeEntries (Toml.mergeEntries base overlay) overlay =
        Toml.mergeEntries base overlay := by
  have hordered := readTable_ordered hoverlay
  obtain ⟨c, hc, hsound, harrays⟩ := ofToml?_mergeEntries hordered huser hown hmode'
  have huserSound := namingAt_isOk_iff.1 huserNames.choose_spec
  have hownSound := namingAt_isOk_iff.1 hownNames.choose_spec
  refine ⟨c, loadMerged_eq_ok_iff.2 ⟨base, overlay, hbase, hoverlay, hc⟩,
    fun directory => namingAt_isOk_iff.2 (hsound huserSound hownSound), ?_, ?_, ?_,
    Toml.mergeEntries_mergeEntries (baseTable_ordered hbase) hordered⟩
  · intro key hkey part name hsplit
    have hsetting : (part, name) ∈ settingKeys.filterMap splitKey :=
      List.mem_filterMap.2 ⟨key, hkey, hsplit⟩
    refine ⟨fun harray harray' => ?_, harrays part (part_of_setting hsetting)⟩
    obtain ⟨hmerged, hover⟩ :=
      setting?_mergeEntries hordered huser hown hmode' hsetting harray harray'
    rw [setting?_toToml_of_ofToml? hc ?_ hsetting hmerged, hover, Option.or_assoc]
    rintro rfl v hv
    rw [(setting?_mergeEntries hordered huser hown hmode' mode_setting harray harray').2,
      Option.or_eq_some_iff] at hv
    rcases hv with hv | ⟨-, hv⟩
    · exact hmode' v hv
    · exact hmode v hv
  · rintro rfl
    rw [Toml.mergeEntries] at hc
    rw [baseTable] at hbase
    split at hbase
    · next hnode =>
      rw [load, if_pos hnode, loadFile, hbase]
      exact decode_eq_ok_iff.2 hc
    · next hnode =>
      cases hbase
      cases hc
      exact if_neg hnode
  · intro hmissing q hq
    have hempty : base = [] := by
      rw [baseTable, if_neg (by simp [hmissing])] at hbase
      cases hbase
      rfl
    have hbase' : baseTable t cwd q = .ok [] := by
      rw [baseTable]
      split
      · exact hq
      · rfl
    exact loadMerged_eq_ok_iff.2 ⟨[], overlay, hbase', hoverlay, hempty ▸ hc⟩

def layeredFiles : FileTree :=
  FileTree.empty
    |>.put ["config.toml"] (.file ("[hash]\nalgorithm = \"sha1\"\nlength = 8\n\n" ++
      "[naming]\ntemplate = \"[local]_[hash]\"\n").toUTF8)
    |>.put [".scopecss.toml"] (.file "[hash]\nlength = 12\n".toUTF8)

theorem baseTable_layeredFiles : baseTable layeredFiles [] ⟨"/config.toml"⟩ =
    .ok [("hash", .table [("algorithm", .string "sha1"), ("length", .integer 8)]),
      ("naming", .table [("template", .string "[local]_[hash]")])] := by
  decide +kernel

theorem readTable_layeredFiles :
    readTable layeredFiles [] .readingConfig ⟨"/.scopecss.toml"⟩ =
      .ok [("hash", .table [("length", .integer 12)])] := by
  decide +kernel

theorem loadMerged_layers_layeredFiles :
    ∃ c, loadMerged layeredFiles [] ⟨"/config.toml"⟩ (some ⟨"/.scopecss.toml"⟩) = .ok c ∧
      setting? c.toToml "hash" "length" = some (.integer 12) ∧
      setting? c.toToml "hash" "algorithm" = some (.string "sha1") ∧
      setting? c.toToml "hash" "encoding" = some (.string "hex") := by
  have huser : ofToml? [("hash", .table [("algorithm", .string "sha1"), ("length", .integer 8)]),
      ("naming", .table [("template", .string "[local]_[hash]")])] =
      some ⟨.default, ⟨"[local]_[hash]", none⟩, ⟨"sha1", "hex", 8, none, .tiered⟩, .default⟩ := by
    decide +kernel
  have hown : ofToml? [("hash", .table [("length", .integer 12)])] =
      some ⟨.default, .default, ⟨"md4", "hex", 12, none, .tiered⟩, .default⟩ := by
    decide +kernel
  obtain ⟨c, hc, -, hlayers, -⟩ := loadMerged_layers layeredFiles [] ⟨"/config.toml"⟩
    ⟨"/.scopecss.toml"⟩ baseTable_layeredFiles readTable_layeredFiles huser hown
    ⟨⟨"/"⟩, exists_naming (by decide +kernel)⟩ ⟨⟨"/"⟩, exists_naming (by decide +kernel)⟩
    (fun v hv => by simp [setting?, fieldsOf, Toml.get?, List.lookup_cons] at hv)
    (fun v hv => by simp [setting?, fieldsOf, Toml.get?, List.lookup_cons] at hv)
  have hlayer (key name : String) (hkey : key ∈ settingKeys)
      (hsplit : splitKey key = some ("hash", name)) :=
    (hlayers key hkey "hash" name hsplit).1 (by simp [IsArrayAt, Toml.get?])
      (by simp [IsArrayAt, Toml.get?])
  refine ⟨c, hc, ?_, ?_, ?_⟩
  · rw [hlayer "hash.length" "length" (by decide) (by decide +kernel)]
    simp [setting?, fieldsOf, Toml.get?, List.lookup_cons]
  · rw [hlayer "hash.algorithm" "algorithm" (by decide) (by decide +kernel)]
    simp [setting?, fieldsOf, Toml.get?, List.lookup_cons]
  · rw [hlayer "hash.encoding" "encoding" (by decide) (by decide +kernel),
      (setting?_toToml .default).2.2.2.2.1]
    simp [setting?, fieldsOf, Toml.get?, List.lookup_cons]
    rfl

end Config

end CssModules
