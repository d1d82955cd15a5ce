import CssModules.Proofs.Config.Decoding
import CssModules.Proofs.Naming.Lookup
import CssModules.Proofs.Path.Lexical

namespace CssModules

namespace Path

variable {base : Path}

theorem text_ne_nil (h : base.isAbsolute = true) : base.text.toList ≠ [] := by
  intro he
  rw [eq_empty he] at h
  exact absurd h (by decide)

theorem isAbsolute_join (h : base.isAbsolute = true) (root : Path) :
    (base.join root).isAbsolute = true := by
  cases hroot : root.isAbsolute with
  | true => rw [join, if_pos hroot, hroot]
  | false =>
    obtain ⟨steps, hsteps, -⟩ := exists_steps h
    rw [isAbsolute_eq, components_join_of_ne (text_ne_nil h) hroot, hsteps]
    rfl

theorem parent_mem_join (h : base.isAbsolute = true) (hbase : base.Canonical) (root : Path) :
    .parent ∈ (base.join root).components ↔ .parent ∈ root.components := by
  cases hroot : root.isAbsolute with
  | true => rw [join, if_pos hroot]
  | false =>
    rw [components_join_of_ne (text_ne_nil h) hroot, List.mem_append,
      or_iff_right (hbase.parent_not_mem h)]
    rcases components_eq_or hroot with hc | hc <;> simp [hc]

end Path

namespace Naming

variable {n n' : Naming}

/-- Settings for naming that may differ in their roots only. -/
structure SameRules (n n' : Naming) : Prop where
  strategy : n.strategy = n'.strategy
  hash : n.hash = n'.hash
  pathRegex : n.pathRegex = n'.pathRegex

theorem request_congr (h : n.projectRoot.location = n'.projectRoot.location)
    (package : Option Package) (localName : String) (p : Path) :
    (n.request package localName p).Alike (n'.request package localName p) := by
  cases package with
  | none => exact ⟨Path.relativeTo_congr p h, rfl, ⟨rfl, rfl⟩, rfl⟩
  | some package => exact ⟨rfl, rfl, ⟨rfl, rfl⟩, rfl⟩

namespace SameRules

theorem identifier (hn : n.SameRules n') (h : n.projectRoot.location = n'.projectRoot.location)
    (package : Option Package) (className : String) (p : Path) :
    n.identifier package className p = n'.identifier package className p := by
  unfold Naming.identifier
  rw [hn.strategy]
  split
  · rfl
  · rw [expand_congr (request_congr h package _ p) hn.hash (by rw [hn.pathRegex])]

theorem generate (hn : n.SameRules n') (h : n.projectRoot.location = n'.projectRoot.location)
    (name? : Path → Option String) (memo : Package.Memo) (className : String) (p : Path) :
    n.generate name? memo className p = n'.generate name? memo className p := by
  have hneeds : n.needsPackage = n'.needsPackage := by
    rw [needsPackage, needsPackage, hn.strategy]
  simp only [Naming.generate, hn.identifier h, hneeds]

theorem generateEach (hn : n.SameRules n')
    (h : n.projectRoot.location = n'.projectRoot.location) (name? : Path → Option String)
    (memo : Package.Memo) (requests : List (String × Path)) :
    n.generateEach name? memo requests = n'.generateEach name? memo requests := by
  induction requests generalizing memo with
  | nil => rfl
  | cons request requests ih =>
    simp only [Naming.generateEach, hn.generate h, ih]

end SameRules

end Naming

namespace Config

def withRoot (c : Config) (root : Path) : Config := { c with project := ⟨some root.text⟩ }

theorem namingAt_withRoot (c : Config) (root base : Path) : (c.withRoot root).namingAt base =
    (c.namingAt base).map fun n => { n with projectRoot := base.join root } := by
  unfold namingAt
  simp only [withRoot]
  cases Template.parse c.naming.template with
  | error e => rfl
  | ok t =>
    cases c.hash.settings with
    | error e => rfl
    | ok settings =>
      cases c.naming.matcher with
      | error e => rfl
      | ok m => rfl

theorem projectRoot_of_namingAt {c : Config} {base : Path} {n : Naming}
    (h : c.namingAt base = .ok n) : n.projectRoot = c.projectRoot base := by
  obtain ⟨t, -, h⟩ := bind_eq_ok_iff.1 h
  obtain ⟨settings, -, h⟩ := bind_eq_ok_iff.1 h
  obtain ⟨m, -, h⟩ := bind_eq_ok_iff.1 h
  cases h
  rfl

variable {c : Config} {base denoted : Path} {root : String}

/-- A configured root that is spelled without `..` means the place that it denotes: all names are
those that are made with another path to that place. If it is spelled with `..`, no stylesheet
outside of packages looks as it does from the other path. -/
theorem names_of_denoted_root (habs : base.isAbsolute = true) (hbase : base.Canonical)
    (hroot : c.project.root = some root) (hclimbs : (base.join ⟨root⟩).climbs = 0)
    (hdenoted : denoted.isAbsolute = true) (hcanonical : denoted.Canonical)
    (hplace : denoted.denotes [] = (⟨root⟩ : Path).denotes (base.denotes [])) :
    (∀ e, (c.withRoot denoted).namingAt base = .error e ↔ c.namingAt base = .error e) ∧
    ∀ n, c.namingAt base = .ok n → ∃ n', (c.withRoot denoted).namingAt base = .ok n' ∧
      (.parent ∉ (⟨root⟩ : Path).components → ∀ name? memo requests,
        n.generateEach name? memo requests = n'.generateEach name? memo requests) ∧
      (.parent ∈ (⟨root⟩ : Path).components → ∀ p className, p.isAbsolute = true → p.Canonical →
        (n.request none className p).relativePath ≠ (n'.request none className p).relativePath) := by
  have hjoined := Path.isAbsolute_join habs ⟨root⟩
  have hparent := Path.parent_mem_join habs hbase ⟨root⟩
  have hsame : (base.join ⟨root⟩).denotes [] = denoted.denotes [] := by
    rw [Path.denotes_join, hplace]
  rw [namingAt_withRoot]
  refine ⟨fun e => by cases c.namingAt base <;> simp [Except.map], ?_⟩
  intro n hn
  have hprojectRoot : n.projectRoot = base.join ⟨root⟩ := by
    rw [projectRoot_of_namingAt hn, projectRoot, hroot]
  have hother : base.join denoted = denoted := by rw [Path.join, if_pos hdenoted]
  rw [hn, hother]
  refine ⟨{ n with projectRoot := denoted }, rfl, ?_, ?_⟩
  · intro hdown
    have hcanonicalJoined := Path.canonical_of_parent_not_mem hjoined (hparent.not.2 hdown)
    have hlocation := hcanonicalJoined.location_congr hjoined hcanonical hdenoted hsame
    rw [← hprojectRoot] at hlocation
    exact Naming.SameRules.generateEach ⟨rfl, rfl, rfl⟩ hlocation
  · intro hup p className hp hpc
    have hnormal : (base.join ⟨root⟩).normalize.Canonical := by
      rw [Path.canonical_normalize_iff, hclimbs]
      exact fun _ => rfl
    have hnormalAbs : (base.join ⟨root⟩).normalize.isAbsolute = true := by
      rw [Path.isAbsolute_normalize, hjoined]
    have hlocation : (base.join ⟨root⟩).normalize.location = denoted.location := by
      apply hnormal.location_congr hnormalAbs hcanonical hdenoted
      rw [Path.denotes_normalize, hjoined, if_pos rfl, List.append_nil, hsame]
    have hne := Path.relativeTo_normalize_ne hp (hpc.parent_not_mem hp) hjoined hclimbs
      (hparent.2 hup)
    rw [Path.relativeTo_congr p hlocation, ← hprojectRoot] at hne
    exact hne

theorem names_of_denoted_root_beside :
    let dotted : Config := { Config.default with project := ⟨some "./ui/."⟩ }
    let beside : Config := { Config.default with project := ⟨some "../x"⟩ }
    (∃ n n', dotted.namingAt ⟨"/p"⟩ = .ok n ∧
      (dotted.withRoot ⟨"/p/ui"⟩).namingAt ⟨"/p"⟩ = .ok n' ∧
      ∀ name? memo requests,
        n.generateEach name? memo requests = n'.generateEach name? memo requests) ∧
    ∃ n n', beside.namingAt ⟨"/p"⟩ = .ok n ∧ (beside.withRoot ⟨"/x"⟩).namingAt ⟨"/p"⟩ = .ok n' ∧
      (n.request none "a" ⟨"/x/s.css"⟩).relativePath ≠
        (n'.request none "a" ⟨"/x/s.css"⟩).relativePath := by
  intro dotted beside
  have hp : (⟨"/p"⟩ : Path).Canonical := ⟨0, ["p"], by decide +kernel, fun _ => rfl⟩
  constructor
  · obtain ⟨n, hn⟩ := exists_naming (c := dotted) (d := ⟨"/p"⟩) (by decide +kernel)
    have hui : (⟨"/p/ui"⟩ : Path).Canonical := ⟨0, ["p", "ui"], by decide +kernel, fun _ => rfl⟩
    have hroot : dotted.project.root = some "./ui/." := rfl
    obtain ⟨-, hok⟩ := names_of_denoted_root (by decide) hp hroot (by decide +kernel) (by decide) hui
      (by decide +kernel)
    obtain ⟨n', hn', hequal, -⟩ := hok n hn
    exact ⟨n, n', hn, hn', hequal (by decide +kernel)⟩
  · obtain ⟨n, hn⟩ := exists_naming (c := beside) (d := ⟨"/p"⟩) (by decide +kernel)
    have hx : (⟨"/x"⟩ : Path).Canonical := ⟨0, ["x"], by decide +kernel, fun _ => rfl⟩
    have hs : (⟨"/x/s.css"⟩ : Path).Canonical := ⟨0, ["x", "s.css"], by decide +kernel, fun _ => rfl⟩
    have hroot : beside.project.root = some "../x" := rfl
    obtain ⟨-, hok⟩ := names_of_denoted_root (by decide) hp hroot (by decide +kernel) (by decide) hx
      (by decide +kernel)
    obtain ⟨n', hn', -, hdiffer⟩ := hok n hn
    exact ⟨n, n', hn, hn', hdiffer (by decide +kernel) ⟨"/x/s.css"⟩ "a" (by decide) hs⟩

/-- Through the parent of the directory a stylesheet in the root is named as if it were far away. -/
theorem parent_in_root_renames :
    let c : Config :=
      { Config.default with naming := ⟨"[path][local]", none⟩, project := ⟨some "../x"⟩ }
    let names (c : Config) : Option (List String) := (c.namingAt ⟨"/p"⟩).toOption.map fun n =>
      (n.generateEach (fun _ => none) [] [("a", ⟨"/x/s.css"⟩)]).1
    (⟨"../x"⟩ : Path).denotes ((⟨"/p"⟩ : Path).denotes []) = (⟨"/x"⟩ : Path).denotes [] ∧
      names c = some ["\\---------x-a"] ∧ names (c.withRoot ⟨"/x"⟩) = some ["a"] := by
  decide +kernel

end Config

end CssModules
