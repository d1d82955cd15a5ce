import CssModules.Naming.Package
import Mathlib.Data.List.DropRight

namespace CssModules

namespace Path

theorem componentOf?_ne_root (piece : List Char) : componentOf? piece ≠ some .root := by
  unfold componentOf?
  split
  · nofun
  · split <;> simp

theorem componentOf?_eq_none_iff {piece : List Char} :
    componentOf? piece = none ↔ isIdle piece = true := by
  unfold componentOf?
  split
  · next h => simp [h]
  · next h => split <;> simp [h]

def Lead.Fits (lead : Lead) (pieces : List (List Char)) : Prop :=
  (∀ piece ∈ pieces, '/' ∉ piece) ∧
    (lead = .none → ∀ piece, pieces.head? = some piece → piece ≠ [] ∧ piece ≠ ['.'])

theorem Lead.Fits.mono {lead : Lead} {pieces pieces' : List (List Char)}
    (h : lead.Fits pieces) (hp : pieces' <+: pieces) : lead.Fits pieces' := by
  refine ⟨fun piece hm => h.1 piece (hp.subset hm), fun hl piece hh => h.2 hl piece ?_⟩
  obtain ⟨rest, rfl⟩ := hp
  cases pieces' with
  | nil => cases hh
  | cons q qs => exact hh

theorem splitAt_cons_of_ne {c : Char} (hc : c ≠ '/') (cs : List Char) :
    ∃ piece pieces, Text.splitAt '/' (c :: cs) = (c :: piece) :: pieces := by
  simp only [Text.splitAt, Text.splitWhere, beq_iff_eq, hc, ↓reduceIte]
  split
  · exact ⟨[], [], rfl⟩
  · next piece pieces _ => exact ⟨piece, pieces, rfl⟩

theorem fits_split (p : Path) : p.split.1.Fits p.split.2 := by
  unfold split
  generalize p.text.toList = cs
  split
  · exact ⟨nofun, nofun⟩
  · exact ⟨fun piece hm => Text.not_mem_of_mem_splitAt hm, nofun⟩
  · next hne hroot =>
    split
    · next ps hps =>
      refine ⟨fun piece hm => ?_, nofun⟩
      exact Text.not_mem_of_mem_splitAt (hps ▸ List.mem_cons_of_mem _ hm)
    · next hdot =>
      refine ⟨fun piece hm => Text.not_mem_of_mem_splitAt hm, fun _ piece hh => ?_⟩
      cases cs with
      | nil => exact absurd rfl hne
      | cons c cs =>
        obtain ⟨first, rest, hs⟩ := splitAt_cons_of_ne (fun hc => hroot cs (hc ▸ rfl)) cs
        rw [hs] at hh hdot
        cases hh
        exact ⟨List.cons_ne_nil _ _, fun he => hdot rest (he ▸ rfl)⟩

theorem split_ofSplit {lead : Lead} {pieces : List (List Char)} (h : lead.Fits pieces)
    (hne : pieces ≠ []) : (ofSplit lead pieces).split = (lead, pieces) := by
  obtain ⟨piece, rest, rfl⟩ := List.exists_cons_of_ne_nil hne
  have hjoin := Text.splitAt_joinWith hne h.1
  cases lead with
  | root =>
    simp only [ofSplit, split, String.toList_ofList, hjoin]
  | current =>
    have hdot : '/' ∉ ['.'] := by decide
    have hs := Text.splitAt_append (Text.joinWith '/' (piece :: rest)) hdot
    rw [hjoin, List.singleton_append] at hs
    simp only [ofSplit, split, String.toList_ofList]
    split
    · next he => cases he
    · next he => cases (List.cons.inj he).1
    · rw [hs]
      rfl
  | none =>
    obtain ⟨hnil, hdot⟩ := h.2 rfl piece rfl
    obtain ⟨c, cs, rfl⟩ := List.exists_cons_of_ne_nil hnil
    have hc : c ≠ '/' := fun he => h.1 _ (List.mem_cons_self ..) (he ▸ List.mem_cons_self ..)
    rw [Text.joinWith_cons_cons] at hjoin
    simp only [ofSplit, split, String.toList_ofList, Text.joinWith_cons_cons]
    split
    · next he => cases he
    · next he => exact absurd (List.cons.inj he).1 hc
    · next he =>
      rw [hjoin]
      split
      · next he => exact absurd (List.cons.inj he).1 hdot
      · rfl

theorem components_ofSplit {lead : Lead} {pieces : List (List Char)} (h : lead.Fits pieces) :
    (ofSplit lead pieces).components = lead.components ++ pieces.filterMap componentOf? := by
  by_cases hne : pieces = []
  · subst hne
    cases lead <;> decide
  · rw [components, split_ofSplit h hne]

theorem dropIdle_eq_rdropWhile (pieces : List (List Char)) :
    dropIdle pieces = pieces.rdropWhile isIdle := rfl

theorem dropIdle_le (pieces : List (List Char)) : dropIdle pieces <+: pieces :=
  List.rdropWhile_prefix isIdle pieces

theorem filterMap_dropIdle (pieces : List (List Char)) :
    (dropIdle pieces).filterMap componentOf? = pieces.filterMap componentOf? := by
  rw [dropIdle_eq_rdropWhile]
  induction pieces using List.reverseRecOn with
  | nil => rfl
  | append_singleton pieces piece ih =>
    rw [List.rdropWhile_concat]
    split
    · next hi => simp [ih, componentOf?_eq_none_iff.2 hi]
    · rfl

theorem components_eq (p : Path) : p.components =
    p.split.1.components ++ (dropIdle p.split.2).filterMap componentOf? := by
  rw [filterMap_dropIdle, components]

theorem getLast?_components_ne {p : Path} {pieces : List (List Char)} {piece : List Char}
    (h : dropIdle p.split.2 = pieces ++ [piece]) : ∃ c, c ≠ .root ∧
      p.components = p.split.1.components ++ pieces.filterMap componentOf? ++ [c] := by
  have hlast : isIdle piece = false := by
    have hn := List.rdropWhile_last_not isIdle p.split.2 (by
      rw [← dropIdle_eq_rdropWhile, h]
      simp)
    simp only [← dropIdle_eq_rdropWhile, h] at hn
    simpa using hn
  cases hc : componentOf? piece with
  | none => simp [componentOf?_eq_none_iff.1 hc] at hlast
  | some c =>
    refine ⟨c, fun he => componentOf?_ne_root piece (he ▸ hc), ?_⟩
    rw [components_eq, h]
    simp [hc]

theorem components_parent? (p : Path) : p.parent?.map components =
    if p.components = [] ∨ p.components = [.root] then Option.none
    else some p.components.dropLast := by
  have hfits := (fits_split p).mono (dropIdle_le _)
  rcases List.eq_nil_or_concat (dropIdle p.split.2) with hd | ⟨pieces, piece, hd⟩
  · have hc := components_eq p
    rw [hd, List.filterMap_nil, List.append_nil] at hc
    rw [hc, parent?, hd]
    cases p.split.1 <;> decide
  · rw [List.concat_eq_append] at hd
    obtain ⟨c, hc, he⟩ := getLast?_components_ne hd
    have hq := components_ofSplit ((hfits.mono (hd ▸ List.prefix_append ..)).mono (dropIdle_le _))
    rw [filterMap_dropIdle] at hq
    have hp : p.parent? = some (ofSplit p.split.1 (dropIdle pieces)) := by
      simp [parent?, hd]
    rw [hp, Option.map_some, hq, he, List.dropLast_concat, if_neg]
    rintro (hn | hr)
    · simp at hn
    · have hl := congrArg List.getLast? hr
      simp only [List.getLast?_concat, List.getLast?_singleton, Option.some.injEq] at hl
      exact hc hl

theorem components_of_parent? {p q : Path} (h : p.parent? = some q) :
    q.components = p.components.dropLast ∧ p.components ≠ [] := by
  have hp := components_parent? p
  rw [h, Option.map_some] at hp
  split at hp
  · cases hp
  · next hn => exact ⟨Option.some.inj hp, fun he => hn (.inl he)⟩

theorem length_of_parent? {p q : Path} (h : p.parent? = some q) :
    q.components.length + 1 = p.components.length := by
  obtain ⟨he, hne⟩ := components_of_parent? h
  have hpos := List.length_pos_iff.2 hne
  rw [he, List.length_dropLast]
  omega

theorem ancestors_eq (p : Path) :
    p.ancestors = (p.parent?.map fun q => q :: q.ancestors).getD [] := by
  cases hp : p.parent? with
  | none =>
    rw [ancestors]
    cases p.components.length <;> simp [ancestors.go, hp]
  | some q =>
    have hl := length_of_parent? hp
    rw [ancestors, ← hl, ancestors.go, hp, Option.map_some, Option.getD_some, ancestors]

theorem ancestors_of_eq_cons {p d : Path} {ds : List Path} (h : p.ancestors = d :: ds) :
    d.ancestors = ds := by
  rw [ancestors_eq] at h
  cases hq : p.parent? with
  | none => simp [hq] at h
  | some q =>
    rw [hq] at h
    obtain ⟨rfl, hds⟩ := List.cons.inj h
    exact hds

theorem ancestors_of_append {p d : Path} {ds es : List Path}
    (h : p.ancestors = ds ++ d :: es) : d.ancestors = es := by
  induction ds generalizing p with
  | nil => exact ancestors_of_eq_cons h
  | cons e ds ih => exact ih (ancestors_of_eq_cons h)

/-- The directories above two spellings of one path are the same places. -/
theorem map_location_ancestors {p q : Path} (h : p.location = q.location) :
    p.ancestors.map location = q.ancestors.map location := by
  have hc : p.components = q.components := h
  have key (n : ℕ) : ∀ p q : Path, p.components = q.components →
      (ancestors.go n p).map location = (ancestors.go n q).map location := by
    induction n with
    | zero => exact fun _ _ _ => rfl
    | succ n ih =>
      intro p q hc
      have hp := components_parent? p
      rw [hc, ← components_parent? q] at hp
      cases hpp : p.parent? with
      | none =>
        rw [hpp, Option.map_none, eq_comm, Option.map_eq_none_iff] at hp
        simp [ancestors.go, hpp, hp]
      | some a =>
        rw [hpp, Option.map_some, eq_comm, Option.map_eq_some_iff] at hp
        obtain ⟨b, hb, hab⟩ := hp
        simp only [ancestors.go, hpp, hb, List.map_cons, ih a b hab.symm, location, hab]
  rw [ancestors, ancestors, hc]
  exact key _ p q hc

theorem isAbsolute_eq (p : Path) : p.isAbsolute = (p.components.head? == some .root) := by
  have hne (pieces : List (List Char)) :
      pieces.findSome? componentOf? ≠ some .root := by
    intro hh
    obtain ⟨piece, _, hc⟩ := List.exists_of_findSome?_eq_some hh
    exact componentOf?_ne_root piece hc
  unfold isAbsolute components split
  generalize p.text.toList = cs
  split
  · rfl
  · rfl
  · next hnil hroot =>
    cases cs with
    | nil => exact absurd rfl hnil
    | cons c cs =>
      have hc : c ≠ '/' := fun hc => hroot cs (hc ▸ rfl)
      split
      · simp [Lead.components, hc]
      · simp [Lead.components, hc, hne]

theorem relativeTo_congr (p : Path) {base base' : Path} (h : base.location = base'.location) :
    p.relativeTo base = p.relativeTo base' := by
  have hc : base.components = base'.components := h
  rw [Path.relativeTo, Path.relativeTo, Path.isAbsolute_eq base, Path.isAbsolute_eq base', hc]

end Path

end CssModules
