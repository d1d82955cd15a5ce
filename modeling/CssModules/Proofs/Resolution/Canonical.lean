import CssModules.Proofs.Path.Lexical
import CssModules.Resolution.Resolver

namespace CssModules.Path

theorem absolute_of_isAbsolute {p : Path} (h : p.isAbsolute = true) (cwd : Path) :
    absolute cwd p = p.normalize := by
  rw [absolute, join, if_pos h]

/-- A normalized path denotes the place of the path from every directory exactly if that is absolute
or climbs at most once. Absolute paths to one place have one key exactly if they climb by the same
parity, and a composition means what its specifier denotes if it climbs at most once. -/
theorem normalize_keeps (p q stylesheet : Path) (specifier : String) :
    (.current ∉ p.normalize.components ∧
      (p.normalize.Canonical ↔ (p.isAbsolute = true → p.climbs % 2 = 0))) ∧
    ((∀ dir, p.normalize.denotes dir = p.denotes dir) ↔ p.isAbsolute = true ∨ p.climbs ≤ 1) ∧
    (p.isAbsolute = true → q.isAbsolute = true → (∀ dir, p.denotes dir = q.denotes dir) →
      (p.climbs % 2 = q.climbs % 2 ↔ p.normalize.location = q.normalize.location) ∧
      (p.climbs % 2 = q.climbs % 2 → ∀ (σ : Type) (h : Host σ) (fuel : Nat) (cwd : Path)
        (s : System σ), s.resolve h fuel cwd p = s.resolve h fuel cwd q)) ∧
    ∃ target, Composition.fileSource stylesheet specifier = .file specifier target ∧
      ((∀ dir, target.denotes dir =
          (⟨specifier⟩ : Path).denotes ((stylesheet.parent?.getD ⟨""⟩).denotes dir)) ↔
        ((stylesheet.parent?.getD ⟨""⟩).join ⟨specifier⟩).isAbsolute = true ∨
          ((stylesheet.parent?.getD ⟨""⟩).join ⟨specifier⟩).climbs ≤ 1) := by
  refine ⟨⟨current_not_mem_normalize p, canonical_normalize_iff⟩, denotes_normalize_iff, ?_, ?_⟩
  · intro hp hq hdenotes
    have hkey : p.climbs % 2 = q.climbs % 2 ↔ p.normalize = q.normalize := by
      rw [normalize_eq_iff_denotes hp hq, and_iff_right (hdenotes [])]
    refine ⟨hkey.trans normalize_eq_iff, ?_⟩
    intro hclimbs σ h fuel cwd s
    rw [System.resolve, System.resolve, absolute_of_isAbsolute hp, absolute_of_isAbsolute hq,
      hkey.1 hclimbs]
  · refine ⟨_, rfl, ?_⟩
    rw [← denotes_normalize_iff]
    simp only [denotes_join]

theorem normalize_keeps_roundabout :
    let p : Path := ⟨"/p/ui/../a/./b.css"⟩
    let q : Path := ⟨"/../../p//a/b.css"⟩
    let stylesheet : Path := ⟨"a/b.css"⟩
    let x : Path := ⟨"../x.css"⟩
    p.isAbsolute = true ∧ q.isAbsolute = true ∧ (∀ dir, p.denotes dir = q.denotes dir) ∧
      p.climbs % 2 = q.climbs % 2 ∧ p.normalize.location = q.normalize.location ∧
      (∀ dir, p.normalize.denotes dir = p.denotes dir) ∧ p.normalize.Canonical ∧
      Composition.fileSource stylesheet "../../x.css" = .file "../../x.css" x ∧
      ∀ dir, x.denotes dir =
        (⟨"../../x.css"⟩ : Path).denotes ((stylesheet.parent?.getD ⟨""⟩).denotes dir) := by
  intro p q stylesheet x
  have hp : p.isAbsolute = true := by decide +kernel
  have hq : q.isAbsolute = true := by decide +kernel
  have hdenotes : ∀ dir, p.denotes dir = q.denotes dir := by
    intro dir
    rw [denotes_of_isAbsolute hp, denotes_of_isAbsolute hq]
    decide +kernel
  have hclimbs : p.climbs % 2 = q.climbs % 2 := by decide +kernel
  have hzero : p.climbs % 2 = 0 := by decide +kernel
  have hsource : Composition.fileSource stylesheet "../../x.css" = .file "../../x.css" x := by
    decide +kernel
  have hclimb : ((stylesheet.parent?.getD ⟨""⟩).join ⟨"../../x.css"⟩).climbs ≤ 1 := by
    decide +kernel
  obtain ⟨⟨-, hcanonical⟩, hplace, hkey, target, htarget, hmeans⟩ :=
    normalize_keeps p q stylesheet "../../x.css"
  have he : x = target := by
    rw [hsource] at htarget
    injection htarget
  subst he
  exact ⟨hp, hq, hdenotes, hclimbs, (hkey hp hq hdenotes).1.1 hclimbs, hplace.2 (.inl hp),
    hcanonical.2 fun _ => hzero, hsource, hmeans.2 (.inr hclimb)⟩

/-- Of two steps above the start none is left, and one step above the root stays. -/
theorem normalize_loses_climbs :
    Composition.fileSource ⟨"a.css"⟩ "../../x.css" = .file "../../x.css" ⟨"x.css"⟩ ∧
      (⟨"x.css"⟩ : Path).denotes ["b", "a"] ≠ (⟨"../../x.css"⟩ : Path).denotes ["b", "a"] ∧
      (⟨"/../x.css"⟩ : Path).denotes [] = (⟨"/x.css"⟩ : Path).denotes [] ∧
      (⟨"/../x.css"⟩ : Path).normalize.location = [.root, .parent, .name "x.css"] ∧
      (⟨"/x.css"⟩ : Path).normalize.location = [.root, .name "x.css"] := by
  decide +kernel

end CssModules.Path
