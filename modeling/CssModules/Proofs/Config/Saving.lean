import CssModules.Proofs.Config.Commands

namespace CssModules

namespace Config

variable {c : Config} {t t₁ : FileTree} {cwd : Place} {p : Path}

theorem save_apply (t : FileTree) (hmade : makeParent cwd p t = (.ok (), t₁)) :
    save cwd p c t = match c.text with
      | .ok text => writeText cwd .writingConfig p text t₁
      | .error e => (.error e, t₁) := by
  rw [save, FileAction.bind_apply, hmade]
  dsimp only
  rw [FileAction.bind_apply, FileAction.lift_apply]
  cases c.text <;> rfl

theorem fits_length_iff :
    Toml.fits c.hash.length = true ↔ c.hash.length ≤ 9223372036854775807 := by
  rw [Toml.fits, Bool.and_eq_true, decide_eq_true_eq, decide_eq_true_eq]
  omega

theorem within_of_makeParent (h : makeParent cwd p t = (.ok (), t₁)) : t.Within t₁ := by
  rw [makeParent_apply] at h
  split at h
  · cases h
    exact fun _ _ => id
  · split at h
    · next hmade =>
      cases h
      exact FileTree.within_of_makeDirectories hmade
    · cases h

/-- A configuration that has been saved is loaded as it was, whatever texts it has. One whose length
is no integer of a settings file is not saved, and no file is changed. -/
theorem save_load (h : Writable t cwd p) (c : Config) :
    (c.hash.length ≤ 9223372036854775807 → ∃ t', save cwd p c t = (.ok (), t') ∧
      load t' cwd p = .ok c ∧
        ∀ base, (load t' cwd p >>= fun loaded => loaded.namingAt base) = c.namingAt base) ∧
    (9223372036854775807 < c.hash.length → ∃ t', save cwd p c t = (.error .unwritable, t') ∧
      ∀ d q content, t.read d q = .ok content → t'.read d q = .ok content) := by
  obtain ⟨t₁, place, hmade, hplace⟩ := h.exists_place
  constructor
  · intro hlength
    have hfits := fits_length_iff.2 hlength
    obtain ⟨entries, hparse, hc⟩ := parse?_write_toToml hfits
    have hsave : save cwd p c t =
        (.ok (), t₁.put place (.file (Toml.write c.toToml).toUTF8)) := by
      rw [save_apply t hmade, text, if_pos hfits]
      dsimp only
      rw [writeText, FileAction.change_apply, hplace.write_eq]
    have hload : load (t₁.put place (.file (Toml.write c.toToml).toUTF8)) cwd p = .ok c := by
      have hnode : (t₁.put place (.file (Toml.write c.toToml).toUTF8)).hasNode cwd p = true := by
        rw [FileTree.hasNode, hplace.find_put]
        rfl
      rw [load, if_pos hnode, loadFile, readTable, hplace.readText_put]
      dsimp only
      rw [hparse]
      exact bind_eq_ok_iff.2 ⟨entries, rfl, by rw [decode, hc]⟩
    refine ⟨_, hsave, hload, fun base => ?_⟩
    rw [hload]
    rfl
  · intro hlength
    have hfits : ¬Toml.fits c.hash.length = true := fun hfits => by
      have hle := fits_length_iff.1 hfits
      omega
    refine ⟨t₁, ?_, fun d q content => (within_of_makeParent hmade).read⟩
    rw [save_apply t hmade, text, if_neg hfits]

theorem save_load_quotes :
    let c : Config := ⟨⟨"it's \"\"\"json\"\"\"\r\n"⟩, ⟨"'''\x00\\", some ""⟩,
      ⟨"md5", "\"", 9223372036854775807, none, .single⟩, ⟨some "a\tb"⟩⟩
    let long : Config := { c with hash := { c.hash with length := 9223372036854775808 } }
    Writable .empty [] newPath ∧ c.hash.length ≤ 9223372036854775807 ∧
      (∃ t', save [] newPath c .empty = (.ok (), t') ∧ load t' [] newPath = .ok c) ∧
      9223372036854775807 < long.hash.length ∧
      ∃ t', save [] newPath long .empty = (.error .unwritable, t') := by
  intro c long
  have hlength : c.hash.length ≤ 9223372036854775807 := by decide
  have hlong : 9223372036854775807 < long.hash.length := by decide
  obtain ⟨t', hsave, hload, -⟩ := (save_load writable_newPath c).1 hlength
  obtain ⟨t'', hfail, -⟩ := (save_load writable_newPath long).2 hlong
  exact ⟨writable_newPath, hlength, ⟨t', hsave, hload⟩, hlong, t'', hfail⟩

end Config

end CssModules
