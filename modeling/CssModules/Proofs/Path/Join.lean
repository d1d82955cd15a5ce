import CssModules.Proofs.Path.Parent
import CssModules.Proofs.Text.Words

namespace CssModules.Path

theorem split_slash (cs : List Char) :
    split ⟨String.ofList ('/' :: cs)⟩ = (.root, Text.splitAt '/' cs) := by
  simp only [split, String.toList_ofList]

theorem split_of_ne {c : Char} (hc : c ≠ '/') {cs piece : List Char} {pieces : List (List Char)}
    (hs : Text.splitAt '/' (c :: cs) = piece :: pieces) :
    split ⟨String.ofList (c :: cs)⟩ =
      if piece = ['.'] then (.current, pieces) else (.none, piece :: pieces) := by
  simp only [split, String.toList_ofList]
  split
  · next he => cases he
  · next he => exact absurd (List.cons.inj he).1 hc
  · rw [hs]
    split
    · next he =>
      obtain ⟨rfl, rfl⟩ := List.cons.inj he
      rfl
    · next he =>
      rw [if_neg]
      rintro rfl
      exact he pieces rfl

theorem split_append_slash {cs : List Char} (hne : cs ≠ []) (ds : List Char) :
    split ⟨String.ofList (cs ++ '/' :: ds)⟩ =
      ((split ⟨String.ofList cs⟩).1, (split ⟨String.ofList cs⟩).2 ++ Text.splitAt '/' ds) := by
  have happend (es : List Char) : Text.splitAt '/' (es ++ '/' :: ds) =
      Text.splitAt '/' es ++ Text.splitAt '/' ds :=
    Text.splitWhere_append_cons rfl es ds
  obtain ⟨c, cs, rfl⟩ := List.exists_cons_of_ne_nil hne
  by_cases hc : c = '/'
  · subst hc
    rw [List.cons_append, split_slash, split_slash, happend]
  · obtain ⟨piece, pieces, hs⟩ := splitAt_cons_of_ne hc cs
    have hsplit := happend (c :: cs)
    simp only [hs, List.cons_append] at hsplit
    rw [List.cons_append, split_of_ne hc hsplit, split_of_ne hc hs]
    split <;> rfl

theorem eq_empty {p : Path} (h : p.text.toList = []) : p = ⟨""⟩ := by
  rw [String.toList_eq_nil_iff] at h
  cases p
  exact congrArg _ h

theorem join_eq {p q : Path} (h : q.isAbsolute = false) :
    p.join q = ⟨String.ofList (p.text.toList ++
      if p.text.toList = [] ∨ p.text.toList.getLast? = some '/' then q.text.toList
      else '/' :: q.text.toList)⟩ := by
  have hempty : p.text.isEmpty = true ↔ p.text.toList = [] := by
    rw [String.isEmpty_iff, String.toList_eq_nil_iff]
  rw [join, if_neg (Bool.eq_false_iff.1 h)]
  simp only [Bool.or_eq_true, hempty, beq_iff_eq]
  split <;> congr 1 <;> rw [← String.toList_inj] <;> simp

theorem empty_join {q : Path} (h : q.isAbsolute = false) : (⟨""⟩ : Path).join q = q := by
  rw [join_eq h, if_pos (.inl rfl)]
  simp

theorem split_join {p q : Path} (hp : p.text.toList ≠ []) (hq : q.isAbsolute = false) :
    ∃ pieces, pieces.filterMap componentOf? = p.split.2.filterMap componentOf? ∧
      (p.join q).split = (p.split.1, pieces ++ Text.splitAt '/' q.text.toList) := by
  have hself : (⟨String.ofList p.text.toList⟩ : Path) = p := by rw [String.ofList_toList]
  rw [join_eq hq]
  by_cases hslash : p.text.toList.getLast? = some '/'
  · obtain ⟨cs, hcs⟩ := List.getLast?_eq_some_iff.1 hslash
    rw [if_pos (.inr hslash), ← hself, hcs, String.toList_ofList, List.append_assoc]
    rcases eq_or_ne cs [] with rfl | hne
    · refine ⟨[], ?_, ?_⟩
      · rw [List.nil_append, split_slash]
        exact (List.filterMap_cons_none (componentOf?_eq_none_iff.2 rfl)).symm
      · rw [List.nil_append, List.nil_append, split_slash, List.singleton_append, split_slash,
          List.nil_append]
    · refine ⟨(split ⟨String.ofList cs⟩).2, ?_, ?_⟩
      · rw [split_append_slash hne, List.filterMap_append]
        exact (List.append_nil _).symm
      · rw [List.singleton_append, split_append_slash hne, split_append_slash hne]
  · refine ⟨p.split.2, rfl, ?_⟩
    rw [if_neg (not_or.2 ⟨hp, hslash⟩), split_append_slash hp, hself]

theorem components_eq_or {p : Path} (h : p.isAbsolute = false) :
    p.components = (Text.splitAt '/' p.text.toList).filterMap componentOf? ∨
      p.components = .current :: (Text.splitAt '/' p.text.toList).filterMap componentOf? := by
  have hself : (⟨String.ofList p.text.toList⟩ : Path) = p := by rw [String.ofList_toList]
  rw [← hself, String.toList_ofList]
  cases hcs : p.text.toList with
  | nil => exact .inl rfl
  | cons c cs =>
    have hc : c ≠ '/' := by
      rintro rfl
      rw [isAbsolute, hcs] at h
      cases h
    obtain ⟨piece, pieces, hs⟩ := splitAt_cons_of_ne hc cs
    rw [components, split_of_ne hc hs, hs]
    split
    · next he =>
      have hidle : componentOf? (c :: piece) = Option.none := by
        rw [he]
        rfl
      rw [List.filterMap_cons_none hidle]
      exact .inr rfl
    · exact .inl rfl

theorem components_of_relative {p : Path} (h : p.isAbsolute = false)
    (hdot : .current ∉ p.components) :
    p.components = (Text.splitAt '/' p.text.toList).filterMap componentOf? := by
  rcases components_eq_or h with hc | hc
  · exact hc
  · rw [hc] at hdot
    exact absurd (List.mem_cons_self ..) hdot

theorem components_join_of_ne {p q : Path} (hp : p.text.toList ≠ []) (hq : q.isAbsolute = false) :
    (p.join q).components =
      p.components ++ (Text.splitAt '/' q.text.toList).filterMap componentOf? := by
  obtain ⟨pieces, hpieces, hsplit⟩ := split_join hp hq
  rw [components, components, hsplit, List.filterMap_append, hpieces, List.append_assoc]

theorem components_join (p : Path) {q : Path} (h : q.isAbsolute = false)
    (hdot : .current ∉ q.components) : (p.join q).components = p.components ++ q.components := by
  by_cases hp : p.text.toList = []
  · rw [eq_empty hp, empty_join h]
    rfl
  · rw [components_join_of_ne hp h, components_of_relative h hdot]

def Component.IsStep (c : Component) : Prop :=
  '/' ∉ c.text.toList ∧ componentOf? c.text.toList = some c

theorem Component.isStep_parent : Component.parent.IsStep := ⟨by decide, by decide⟩

theorem Component.IsStep.ne_root {c : Component} (h : c.IsStep) : c ≠ .root := by
  rintro rfl
  exact h.1 (List.mem_cons_self ..)

theorem Component.IsStep.ne_current {c : Component} (h : c.IsStep) : c ≠ .current := by
  rintro rfl
  exact absurd h.2 (by decide)

theorem text_of_componentOf? {piece : List Char} {c : Component} (h : componentOf? piece = some c) :
    c.text.toList = piece := by
  unfold componentOf? at h
  split at h
  · cases h
  · split at h
    · next hdots =>
      cases h
      rw [beq_iff_eq.1 hdots]
      rfl
    · cases h
      exact String.toList_ofList

theorem isStep_of_mem {p : Path} {c : Component} (h : c ∈ p.split.2.filterMap componentOf?) :
    c.IsStep := by
  obtain ⟨piece, hpiece, hc⟩ := List.mem_filterMap.1 h
  rw [Component.IsStep, text_of_componentOf? hc]
  exact ⟨(fits_split p).1 piece hpiece, hc⟩

theorem exists_steps {p : Path} (h : p.isAbsolute = true) :
    ∃ steps, p.components = .root :: steps ∧ ∀ c ∈ steps, c.IsStep := by
  rw [isAbsolute_eq, beq_iff_eq, components] at h
  cases hlead : p.split.1 with
  | root =>
    refine ⟨p.split.2.filterMap componentOf?, ?_, fun c hc => isStep_of_mem hc⟩
    rw [components, hlead]
    rfl
  | current =>
    rw [hlead] at h
    cases h
  | none =>
    rw [hlead] at h
    exact absurd rfl (isStep_of_mem (List.mem_of_mem_head? h)).ne_root

theorem filterMap_componentOf? {cs : List Component} (h : ∀ c ∈ cs, c.IsStep) :
    (cs.map (·.text.toList)).filterMap componentOf? = cs := by
  rw [List.filterMap_map]
  exact (List.filterMap_congr fun c hc => (h c hc).2).trans List.filterMap_some

theorem ofComponents_eq_ofSplit {cs : List Component} (h : ∀ c ∈ cs, c.IsStep) :
    ofComponents cs = ofSplit .none (cs.map (·.text.toList)) := by
  cases cs with
  | nil => rfl
  | cons c cs =>
    cases c with
    | root => exact absurd rfl (h _ (List.mem_cons_self ..)).ne_root
    | current => rfl
    | parent => rfl
    | name s => rfl

theorem components_ofComponents {cs : List Component} (h : ∀ c ∈ cs, c.IsStep) :
    (ofComponents cs).components = cs := by
  have hfits : Lead.none.Fits (cs.map (·.text.toList)) := by
    constructor
    · intro piece hm
      obtain ⟨c, hc, rfl⟩ := List.mem_map.1 hm
      exact (h c hc).1
    · intro _ piece hh
      obtain ⟨c, hc, rfl⟩ := List.mem_map.1 (List.mem_of_mem_head? hh)
      have hs := (h c hc).2
      constructor <;>
      · intro he
        rw [he] at hs
        cases hs
  rw [ofComponents_eq_ofSplit h, components_ofSplit hfits, filterMap_componentOf? h]
  rfl

theorem components_ofComponents_root {cs : List Component} (h : ∀ c ∈ cs, c.IsStep) :
    (ofComponents (.root :: cs)).components = .root :: cs := by
  have hfits : Lead.root.Fits (cs.map (·.text.toList)) := by
    constructor
    · intro piece hm
      obtain ⟨c, hc, rfl⟩ := List.mem_map.1 hm
      exact (h c hc).1
    · nofun
  rw [show ofComponents (.root :: cs) = ofSplit .root (cs.map (·.text.toList)) from rfl,
    components_ofSplit hfits, filterMap_componentOf? h]
  rfl

theorem exists_steps_of_fileName? {p : Path} {file : String} (h : p.isAbsolute = true)
    (hfile : p.fileName? = some file) :
    ∃ steps, p.components = .root :: steps ++ [.name file] ∧ (Component.name file).IsStep := by
  obtain ⟨steps, hsteps, hstep⟩ := exists_steps h
  rw [fileName?, hsteps] at hfile
  split at hfile
  · next hlast =>
    cases hfile
    obtain ⟨front, hfront⟩ := List.getLast?_eq_some_iff.1 hlast
    cases front with
    | nil => cases hfront
    | cons c front =>
      obtain ⟨rfl, rfl⟩ := List.cons.inj hfront
      refine ⟨front, hsteps, hstep _ ?_⟩
      exact List.mem_append_right _ (List.mem_singleton_self _)
  · cases hfile

theorem normalize_join_fileName {p q : Path} {file : String} (hq : q.isAbsolute = true)
    (hfile : q.fileName? = some file) (hdir : p.parent?.map components = q.parent?.map components) :
    ((p.parent?.getD ⟨""⟩).join ⟨"./" ++ file⟩).normalize = q.normalize := by
  obtain ⟨steps, hsteps, hslash, hname⟩ := exists_steps_of_fileName? hq hfile
  rw [Component.text] at hslash hname
  have hparent : p.parent?.map components = some (.root :: steps) := by
    rw [hdir, components_parent?, hsteps, if_neg (by simp), List.dropLast_concat]
  obtain ⟨dir, hdir', hcomponents⟩ := Option.map_eq_some_iff.1 hparent
  have hne : dir.text.toList ≠ [] := by
    intro hnil
    rw [eq_empty hnil] at hcomponents
    cases hcomponents
  have hrelative : (⟨"./" ++ file⟩ : Path).isAbsolute = false := by
    simp [isAbsolute]
  have hpieces : Text.splitAt '/' ("./" ++ file).toList = [['.'], file.toList] := by
    have hslashes : '/' ∉ ['.'] := by decide
    have hsplit := Text.splitAt_append file.toList hslashes
    rw [Text.splitAt_of_not_mem hslash] at hsplit
    rw [String.toList_append]
    exact hsplit
  have hidle : componentOf? ['.'] = Option.none := rfl
  have hjoin : (dir.join ⟨"./" ++ file⟩).components = q.components := by
    rw [components_join_of_ne hne hrelative, hpieces, hcomponents, hsteps,
      List.filterMap_cons_none hidle, List.filterMap_cons_some hname, List.filterMap_nil]
  rw [hdir', Option.getD_some, normalize, hjoin, normalize]

end CssModules.Path
