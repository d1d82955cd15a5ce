import CssModules.Proofs.Naming.Searches
import CssModules.Proofs.Path.Relative

namespace CssModules

open Package

theorem Package.Memo.Reached.sound {names : Location → Option String} {memo : Memo}
    (h : memo.Reached (names ∘ Path.location)) : memo.Sound (names ∘ Path.location) := by
  obtain ⟨paths, schedule, rfl⟩ := h
  exact ((Lookups.right_ofPaths _ paths).run (fun _ _ h => congrArg names h) schedule).sound

namespace Naming

variable {n n' : Naming} {t : Template}

theorem identifier_eq_of_alike (hn : n.strategy = .template t) (hn' : n'.strategy = .template t)
    (hhash : n.hash = n'.hash) (hregex : n.pathRegex = none) (hregex' : n'.pathRegex = none)
    {package package' : Option Package} {className : String} {p p' : Path}
    (h : (n.request package (Identifier.unescape className) p).Alike
      (n'.request package' (Identifier.unescape className) p')) :
    n.identifier package className p = n'.identifier package' className p' := by
  rw [identifier, identifier, hn, hn']
  dsimp only
  rw [expand_congr h hhash (by rw [hregex, hregex']; rfl)]

theorem generate_eq_identifier (hn : n.strategy = .template t) {names : Location → Option String}
    {memo : Memo} (hmemo : memo.Reached (names ∘ Path.location)) (className : String) (p : Path) :
    (n.generate (names ∘ Path.location) memo className p).1 =
      n.identifier (if t.needsPackage then find (names ∘ Path.location) p else none) className p := by
  have hneeds : n.needsPackage = t.needsPackage := by rw [needsPackage, hn]
  rw [(n.generate_eq_scopedName hmemo.sound (fun _ _ h => congrArg names h) className p).1,
    scopedName, hneeds]

/-- The same stylesheets in another place have the same names: behind the root of a project, where no
package is looked for or found, and behind the directory of a package wherever the projects are. What
generators have served before makes no difference. -/
theorem generate_relocated (hn : n.strategy = .template t) (hn' : n'.strategy = .template t)
    (hhash : n.hash = n'.hash) (hregex : n.pathRegex = none) (hregex' : n'.pathRegex = none)
    {names names' : Location → Option String} {memo memo' : Memo}
    (hmemo : memo.Reached (names ∘ Path.location))
    (hmemo' : memo'.Reached (names' ∘ Path.location)) (className : String) {r : Path}
    (hr : ∀ c ∈ r.components, ∃ s, c = .name s) :
    ((t.needsPackage = true → find (names ∘ Path.location) (n.projectRoot.join r) = none ∧
        find (names' ∘ Path.location) (n'.projectRoot.join r) = none) →
      (n.generate (names ∘ Path.location) memo className (n.projectRoot.join r)).1 =
        (n'.generate (names' ∘ Path.location) memo' className (n'.projectRoot.join r)).1) ∧
    ∀ (d d' : Path) (k k' : Package), t.needsPackage = true →
      find (names ∘ Path.location) (d.join r) = some k → k.root.location = d.location →
      find (names' ∘ Path.location) (d'.join r) = some k' → k'.root.location = d'.location →
      k.name = k'.name →
      (n.generate (names ∘ Path.location) memo className (d.join r)).1 =
        (n'.generate (names' ∘ Path.location) memo' className (d'.join r)).1 := by
  have habs : r.isAbsolute = false := by
    rw [Path.isAbsolute_eq, beq_eq_false_iff_ne]
    intro he
    obtain ⟨s, hs⟩ := hr _ (List.mem_of_mem_head? he)
    cases hs
  have hdot : .current ∉ r.components := by
    intro hm
    obtain ⟨s, hs⟩ := hr _ hm
    cases hs
  constructor
  · intro hnone
    rw [generate_eq_identifier hn hmemo, generate_eq_identifier hn' hmemo']
    have hpackages : (if t.needsPackage then find (names ∘ Path.location) (n.projectRoot.join r)
          else none) = none ∧
        (if t.needsPackage then find (names' ∘ Path.location) (n'.projectRoot.join r)
          else none) = none := by
      split
      · next hneeds => exact hnone hneeds
      · exact ⟨rfl, rfl⟩
    rw [hpackages.1, hpackages.2]
    apply identifier_eq_of_alike hn hn' hhash hregex hregex'
    refine ⟨?_, rfl, ⟨rfl, rfl⟩, rfl⟩
    exact (Path.relativeTo_join _ habs hdot).trans (Path.relativeTo_join _ habs hdot).symm
  · intro d d' k k' hneeds hk hroot hk' hroot' hname
    rw [generate_eq_identifier hn hmemo, generate_eq_identifier hn' hmemo', if_pos hneeds,
      if_pos hneeds, hk, hk']
    apply identifier_eq_of_alike hn hn' hhash hregex hregex'
    refine ⟨?_, rfl, ⟨rfl, rfl⟩, congrArg some hname⟩
    calc (d.join r).relativeTo k.root
        = (d.join r).relativeTo d := Path.relativeTo_congr _ hroot
      _ = (d'.join r).relativeTo d' := by
          rw [Path.relativeTo_join d habs hdot, Path.relativeTo_join d' habs hdot]
      _ = (d'.join r).relativeTo k'.root := (Path.relativeTo_congr _ hroot').symm

theorem generate_relocated_twoProjects :
    let t : Template := ⟨"[package]_[path][local]_[hash:8]", [.package, .literal "_", .path,
      .localName, .literal "_", .hash ⟨none, none, some 8⟩]⟩
    let n : Naming := ⟨.template t, ⟨.default, none, .tiered⟩, ⟨"/a"⟩, none⟩
    let n' : Naming := ⟨.template t, ⟨.default, none, .tiered⟩, ⟨"/b/web"⟩, none⟩
    let d : Path := ⟨"/a/node_modules/ui"⟩
    let d' : Path := ⟨"/b/web/lib//ui"⟩
    let names : Location → Option String := fun l => if l = d.location then some "@acme/ui" else none
    let names' : Location → Option String :=
      fun l => if l = d'.location then some "@acme/ui" else none
    let r : Path := ⟨"src/button.css"⟩
    let memo' := ((Lookups.ofPaths [⟨"/b/web/lib/ui/x.css"⟩]).run (names' ∘ Path.location)
      [0, 0, 0]).memo
    Memo.Reached [] (names ∘ Path.location) ∧ memo'.Reached (names' ∘ Path.location) ∧
      (∀ c ∈ r.components, ∃ s, c = .name s) ∧
      find (names ∘ Path.location) (n.projectRoot.join r) = none ∧
      find (names' ∘ Path.location) (n'.projectRoot.join r) = none ∧
      (n.generate (names ∘ Path.location) [] "btn" (n.projectRoot.join r)).1 =
        (n'.generate (names' ∘ Path.location) memo' "btn" (n'.projectRoot.join r)).1 ∧
      find (names ∘ Path.location) (d.join r) = some ⟨"@acme/ui", d⟩ ∧
      find (names' ∘ Path.location) (d'.join r) = some ⟨"@acme/ui", d'⟩ ∧
      (n.generate (names ∘ Path.location) [] "btn" (d.join r)).1 =
        (n'.generate (names' ∘ Path.location) memo' "btn" (d'.join r)).1 := by
  intro t n n' d d' names names' r memo'
  have hmemo : Memo.Reached [] (names ∘ Path.location) := ⟨[], [], rfl⟩
  have hmemo' : memo'.Reached (names' ∘ Path.location) := ⟨_, _, rfl⟩
  have hr : ∀ c ∈ r.components, ∃ s, c = .name s := by
    have hc : r.components = [.name "src", .name "button.css"] := by decide +kernel
    simp [hc]
  have hnone : find (names ∘ Path.location) (n.projectRoot.join r) = none := by decide +kernel
  have hnone' : find (names' ∘ Path.location) (n'.projectRoot.join r) = none := by decide +kernel
  have hk : find (names ∘ Path.location) (d.join r) = some ⟨"@acme/ui", d⟩ := by decide +kernel
  have hk' : find (names' ∘ Path.location) (d'.join r) = some ⟨"@acme/ui", d'⟩ := by decide +kernel
  have hn : n.strategy = .template t := rfl
  have hn' : n'.strategy = .template t := rfl
  have h := generate_relocated hn hn' rfl rfl rfl hmemo hmemo' "btn" hr
  exact ⟨hmemo, hmemo', hr, hnone, hnone', h.1 fun _ => ⟨hnone, hnone'⟩, hk, hk',
    h.2 d d' _ _ rfl hk rfl hk' rfl rfl⟩

end Naming

end CssModules
