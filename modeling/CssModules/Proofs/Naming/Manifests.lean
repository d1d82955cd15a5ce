import CssModules.Naming.Manifest
import CssModules.Proofs.Path.Join

namespace CssModules

namespace Path

theorem split_eq_of_components {p q : Path} (h : p.components = q.components) :
    p.split.1 = q.split.1 ∧
      p.split.2.filterMap componentOf? = q.split.2.filterMap componentOf? := by
  have hp (c : Component) (hc : c ∈ p.split.2.filterMap componentOf?) := isStep_of_mem hc
  have hq (c : Component) (hc : c ∈ q.split.2.filterMap componentOf?) := isStep_of_mem hc
  rw [components, components] at h
  generalize p.split.2.filterMap componentOf? = ps at *
  generalize q.split.2.filterMap componentOf? = qs at *
  cases hpl : p.split.1 <;> cases hql : q.split.1 <;>
    simp only [hpl, hql, Lead.components, List.nil_append, List.singleton_append, List.cons.injEq,
      reduceCtorEq, true_and, false_and] at h
  case root.root => exact ⟨rfl, h⟩
  case current.current => exact ⟨rfl, h⟩
  case none.none => exact ⟨rfl, h⟩
  case root.none => exact absurd rfl (hq _ (h ▸ List.mem_cons_self ..)).ne_root
  case current.none => exact absurd rfl (hq _ (h ▸ List.mem_cons_self ..)).ne_current
  case none.root => exact absurd rfl (hp _ (h ▸ List.mem_cons_self ..)).ne_root
  case none.current => exact absurd rfl (hp _ (h ▸ List.mem_cons_self ..)).ne_current

theorem map_text_filterMap (pieces : List (List Char)) :
    (pieces.filterMap componentOf?).map (·.text.toList) = pieces.filter (!isIdle ·) := by
  induction pieces with
  | nil => rfl
  | cons piece pieces ih =>
    cases hc : componentOf? piece with
    | none =>
      rw [List.filterMap_cons_none hc, List.filter_cons_of_neg, ih]
      simp [componentOf?_eq_none_iff.1 hc]
    | some c =>
      have hidle : isIdle piece = false := by
        rw [Bool.eq_false_iff]
        intro hi
        rw [componentOf?_eq_none_iff.2 hi] at hc
        cases hc
      rw [List.filterMap_cons_some hc, List.map_cons, ih, text_of_componentOf? hc,
        List.filter_cons_of_pos]
      simp [hidle]

end Path

namespace Package

theorem split_manifestPath (d : Path) :
    ∃ pieces, (manifestPath d).split = (d.split.1, pieces ++ ["package.json".toList]) ∧
      pieces.filterMap Path.componentOf? = d.split.2.filterMap Path.componentOf? := by
  have hfile : Text.splitAt '/' "package.json".toList = ["package.json".toList] := by decide
  by_cases hd : d.text.toList = []
  · rw [Path.eq_empty hd]
    exact ⟨[], by decide, rfl⟩
  · obtain ⟨pieces, hpieces, hsplit⟩ :=
      Path.split_join (q := ⟨"package.json"⟩) hd (by decide)
    exact ⟨pieces, by rw [manifestPath, hsplit, hfile], hpieces⟩

end Package

namespace FileTree

theorem walk_stop (t : FileTree) (place : Place) (pieces : List (List Char)) (h : pieces ≠ []) :
    t.walk place pieces =
      match t.node? place with
      | none => .error .notFound
      | some (.file _) => .error .notDirectory
      | some .directory => t.walk place pieces := by
  cases pieces with
  | nil => exact absurd rfl h
  | cons piece pieces =>
    rw [walk]
    cases t.node? place with
    | none => rfl
    | some node => cases node <;> rfl

theorem walk_filter (t : FileTree) (last : List Char) (pieces : List (List Char)) (place : Place) :
    t.walk place (pieces ++ [last]) = t.walk place (pieces.filter (!Path.isIdle ·) ++ [last]) := by
  induction pieces generalizing place with
  | nil => rfl
  | cons piece pieces ih =>
    rw [t.walk_stop place (piece :: pieces ++ [last]) (by simp),
      t.walk_stop place (List.filter _ (piece :: pieces) ++ [last]) (by simp)]
    split
    · rfl
    · rfl
    · next hnode =>
      by_cases hidle : Path.isIdle piece = true
      · rw [List.filter_cons_of_neg (by simp [hidle]), ← ih, List.cons_append, walk, hnode]
        simp only [hidle, if_true]
      · rw [List.filter_cons_of_pos (by simp [hidle]), List.cons_append, List.cons_append, walk,
          walk, hnode]
        simp only [hidle, ih]

theorem locate_eq (t : FileTree) (cwd : Place) {p q : Path} {lead : Path.Lead} {last : List Char}
    {ps qs : List (List Char)} (hp : p.split = (lead, ps ++ [last]))
    (hq : q.split = (lead, qs ++ [last]))
    (h : ps.filterMap Path.componentOf? = qs.filterMap Path.componentOf?) :
    t.locate cwd p = t.locate cwd q := by
  have hfilter : ps.filter (!Path.isIdle ·) = qs.filter (!Path.isIdle ·) := by
    rw [← Path.map_text_filterMap, ← Path.map_text_filterMap, h]
  have hwalk (place : Place) : t.walk place (ps ++ [last]) = t.walk place (qs ++ [last]) := by
    rw [t.walk_filter last ps, hfilter, ← t.walk_filter last qs]
  rw [locate, locate, hp, hq]
  cases lead with
  | root => exact hwalk []
  | current => exact hwalk cwd
  | none =>
    obtain ⟨piece, pieces, hpieces⟩ := List.exists_cons_of_ne_nil (l := ps ++ [last]) (by simp)
    obtain ⟨piece', pieces', hpieces'⟩ := List.exists_cons_of_ne_nil (l := qs ++ [last]) (by simp)
    have hcwd := hwalk cwd
    rw [hpieces, hpieces'] at hcwd ⊢
    exact hcwd

/-- The package of a directory depends on where the directory is. -/
theorem packageName?_eq (t : FileTree) (cwd : Place) {d e : Path} (h : d.location = e.location) :
    t.packageName? cwd d = t.packageName? cwd e := by
  obtain ⟨ds, hd, hds⟩ := Package.split_manifestPath d
  obtain ⟨es, he, hes⟩ := Package.split_manifestPath e
  obtain ⟨hlead, hsteps⟩ := Path.split_eq_of_components h
  rw [← hlead] at he
  have hlocate := t.locate_eq cwd hd he (by rw [hds, hes, hsteps])
  simp only [packageName?, readText, read, find, hlocate]

end FileTree

end CssModules
