import CssModules.Proofs.Path.Lexical
import CssModules.Template.Expansion

namespace CssModules

namespace Text

variable {c : Char} {front back : List Char} {pieces : List (List Char)} {piece : List Char}

theorem dropWhile_reverse_append (h : c ∉ back) :
    (front ++ c :: back).reverse.dropWhile (· != c) = c :: front.reverse := by
  have hback : ∀ d ∈ back.reverse, (d != c) = true := by
    intro d hd
    rw [bne_iff_ne]
    rintro rfl
    exact h (List.mem_reverse.1 hd)
  rw [List.reverse_append, List.reverse_cons, List.append_assoc,
    List.dropWhile_append_of_pos hback]
  simp

theorem takeWhile_reverse_append (h : c ∉ back) :
    (front ++ c :: back).reverse.takeWhile (· != c) = back.reverse := by
  have hback : ∀ d ∈ back.reverse, (d != c) = true := by
    intro d hd
    rw [bne_iff_ne]
    rintro rfl
    exact h (List.mem_reverse.1 hd)
  rw [List.reverse_append, List.reverse_cons, List.append_assoc,
    List.takeWhile_append_of_pos hback]
  simp

theorem dropWhile_reverse_of_not_mem (h : c ∉ back) :
    back.reverse.dropWhile (· != c) = [] := by
  rw [List.dropWhile_eq_nil_iff]
  intro d hd
  rw [bne_iff_ne]
  rintro rfl
  exact h (List.mem_reverse.1 hd)

theorem exists_last (h : c ∈ back) : ∃ before behind, back = before ++ c :: behind ∧ c ∉ behind := by
  obtain ⟨behind, before, he, hbehind⟩ := List.eq_append_cons_of_mem (List.mem_reverse.2 h)
  refine ⟨before.reverse, behind.reverse, ?_, fun hm => hbehind (List.mem_reverse.1 hm)⟩
  rw [← List.reverse_reverse back, he]
  simp

theorem joinWith_concat (sep : Char) (hne : pieces ≠ []) :
    joinWith sep (pieces ++ [piece]) = joinWith sep pieces ++ sep :: piece := by
  induction pieces with
  | nil => exact absurd rfl hne
  | cons p pieces ih =>
    cases pieces with
    | nil => rfl
    | cons q pieces =>
      have hcons := ih (List.cons_ne_nil q pieces)
      rw [List.cons_append, List.cons_append, joinWith, ← List.cons_append, hcons, joinWith,
        List.append_assoc, List.cons_append]

end Text

section Cutting

variable {dir base : String}

theorem splitLast_append (h : '/' ∉ base.toList) :
    splitLast (dir ++ "/" ++ base) = (some dir, base) := by
  have hlist : (dir ++ "/" ++ base).toList = dir.toList ++ '/' :: base.toList := by simp
  rw [splitLast, hlist, Text.dropWhile_reverse_append h, Text.takeWhile_reverse_append h]
  simp

theorem splitLast_of_not_mem (h : '/' ∉ base.toList) : splitLast base = (none, base) := by
  rw [splitLast, Text.dropWhile_reverse_of_not_mem h]

theorem splitLast_cases (path : String) :
    ('/' ∉ path.toList ∧ splitLast path = (none, path)) ∨
      ∃ dir base, '/' ∉ base.toList ∧ path = dir ++ "/" ++ base ∧
        splitLast path = (some dir, base) := by
  by_cases h : '/' ∈ path.toList
  · obtain ⟨before, behind, he, hbehind⟩ := Text.exists_last h
    have hbase : '/' ∉ (String.ofList behind).toList := by rwa [String.toList_ofList]
    have hpath : path = String.ofList before ++ "/" ++ String.ofList behind := by
      rw [← String.toList_inj, he]
      simp
    refine .inr ⟨_, _, hbase, hpath, ?_⟩
    rw [hpath, splitLast_append hbase]
  · exact .inl ⟨h, splitLast_of_not_mem h⟩

theorem Path.stemAndExtension_cases (name : String) :
    ('.' ∉ name.toList.tail ∧ stemAndExtension name = (name, none)) ∨
      ∃ stem extension, name = stem ++ "." ++ extension ∧ stem ≠ "" ∧ '.' ∉ extension.toList ∧
        stemAndExtension name = (stem, some extension) := by
  by_cases h : '.' ∈ name.toList
  · obtain ⟨stem, extension, he, hextension⟩ := Text.exists_last h
    have hdrop : name.toList.reverse.dropWhile (· != '.') = '.' :: stem.reverse := by
      rw [he]
      exact Text.dropWhile_reverse_append hextension
    have htake : name.toList.reverse.takeWhile (· != '.') = extension.reverse := by
      rw [he]
      exact Text.takeWhile_reverse_append hextension
    cases stem using List.reverseRecOn with
    | nil =>
      refine .inl ⟨?_, by simp [stemAndExtension, hdrop]⟩
      rwa [he]
    | append_singleton front d =>
      refine .inr ⟨String.ofList (front ++ [d]), String.ofList extension, ?_, ?_, ?_, ?_⟩
      · rw [← String.toList_inj, he]
        simp
      · rw [Ne, ← String.toList_eq_nil_iff]
        simp
      · rwa [String.toList_ofList]
      · simp [stemAndExtension, hdrop, htake]
  · refine .inl ⟨fun hm => h (List.mem_of_mem_tail hm), ?_⟩
    rw [stemAndExtension, Text.dropWhile_reverse_of_not_mem h]

end Cutting

namespace Path

variable {p root : Path}

theorem fileName?_of_isStep {s : String} (h : (Component.name s).IsStep) :
    fileName? ⟨s⟩ = some s := by
  have hcomponents := components_ofComponents (List.forall_mem_singleton.2 h)
  have hself : ofComponents [.name s] = ⟨s⟩ := congrArg Path.mk (String.ofList_toList ..)
  rw [hself] at hcomponents
  rw [fileName?, hcomponents]
  rfl

/-- A path that is not above a directory looks from there like its own name, alone or in some
directory. -/
theorem exists_relativeTo_eq (hp : p.isAbsolute = true) (hpc : p.Canonical)
    (hroot : root.isAbsolute = true) (hrootc : root.Canonical)
    (hbelow : ¬p.location <+: root.location) :
    ∃ s, (Component.name s).IsStep ∧
      (p.relativeTo root = s ∨ ∃ dir, dir ≠ "" ∧ p.relativeTo root = dir ++ "/" ++ s) := by
  obtain ⟨-, hm⟩ | ⟨shared, up, down, hb, ht, hdown, he⟩ := relativeTo_cases hp hroot
  · exact absurd hm (hrootc.parent_not_mem hroot)
  rcases List.eq_nil_or_concat down with rfl | ⟨front, c, rfl⟩
  · refine absurd ?_ hbelow
    rw [location, location, hb, ht, List.append_nil, ← List.cons_append]
    exact List.prefix_append ..
  rw [List.concat_eq_append] at hdown ht he
  obtain ⟨hfront, hc⟩ := List.forall_mem_append.1 hdown
  have hstep := hc c (List.mem_singleton_self c)
  obtain ⟨s, rfl⟩ : ∃ s, c = .name s := by
    cases c with
    | root => exact absurd rfl hstep.ne_root
    | current => exact absurd rfl hstep.ne_current
    | parent =>
      refine absurd ?_ (hpc.parent_not_mem hp)
      rw [ht]
      simp
    | name s => exact ⟨s, rfl⟩
  have hway := isStep_way up hdown
  rw [← List.append_assoc] at he hway
  have hrelative := isAbsolute_ofComponents hway
  generalize up.map (fun _ => Component.parent) ++ front = steps at he hway hrelative
  have htext : p.relativeTo root =
      String.ofList (Text.joinWith '/' (steps.map (·.text.toList) ++ [s.toList])) := by
    rw [he, ofComponents_eq_ofSplit hway, List.map_append]
    rfl
  refine ⟨s, hstep, ?_⟩
  rcases eq_or_ne steps [] with rfl | hne
  · left
    rw [htext]
    exact String.ofList_toList ..
  · right
    rw [Text.joinWith_concat '/' (by simpa using hne)] at htext
    refine ⟨String.ofList (Text.joinWith '/' (steps.map (·.text.toList))), ?_, ?_⟩
    · -- Behind nothing the slash would stand first, but a way is never absolute.
      intro hempty
      have hnil := String.toList_eq_nil_iff.2 hempty
      rw [String.toList_ofList] at hnil
      rw [hnil] at htext
      rw [isAbsolute, ← he, htext] at hrelative
      simp at hrelative
    · rw [htext, ← String.toList_inj]
      simp

end Path

/-- What a placeholder becomes if it is all that a template has. -/
def Segment.expansion (r : Request) (settings : HashSettings) (s : Segment) : String :=
  (Template.interpolate ⟨s.render, [s]⟩ r settings).render

namespace Request

variable {r : Request}

theorem expansion_eq {settings : HashSettings} {s : Segment} {text : String}
    (h : r.pathPart s = some text) : s.expansion r settings = text := by
  cases s with
  | hash o => cases h
  | _ =>
    simp only [Segment.expansion, Template.interpolate, Expansion.expandHashes,
      Expansion.replaceHashes, Expansion.expandPaths, Expansion.replace, List.map_cons, List.map_nil,
      h, Expansion.render, Segment.render]
    exact String.empty_append

section Placement

variable (settings : HashSettings) {base dir : String}

theorem expansion_fileName (hstep : (Path.Component.name base).IsStep)
    (hbase : (splitLast r.relativePath).2 = base) :
    let text := Segment.expansion r settings
    text .name ++ text .ext = base ∧ '/' ∉ (text .name).toList ∧ text .name ≠ "" ∧
      (text .ext = "" ∨ ∃ e, text .ext = "." ++ e ∧ '.' ∉ e.toList) := by
  intro text
  have hfileName := Path.fileName?_of_isStep hstep
  have hname : text .name = (Path.stemAndExtension base).1 := by
    apply expansion_eq
    rw [pathPart, hbase, Path.fileStem?, hfileName]
    rfl
  have hext : text .ext = ((Path.stemAndExtension base).2.map ("." ++ ·)).getD "" := by
    apply expansion_eq
    rw [pathPart, hbase, Path.extension?, hfileName, Option.bind_some]
    cases (Path.stemAndExtension base).2 <;> rfl
  rcases Path.stemAndExtension_cases base with ⟨-, he⟩ | ⟨stem, e, rfl, hne, hdot, he⟩
  · rw [he] at hname hext
    refine ⟨?_, hname ▸ hstep.1, ?_, .inl hext⟩
    · rw [hname, hext]
      exact String.append_empty
    · rw [hname]
      rintro rfl
      exact absurd hstep.2 (by decide)
  · rw [he] at hname hext
    refine ⟨?_, ?_, hname ▸ hne, .inr ⟨e, hext, hdot⟩⟩
    · rw [hname, hext, String.append_assoc]
      rfl
    · rw [hname]
      intro hm
      apply hstep.1
      show '/' ∈ (stem ++ "." ++ e).toList
      rw [String.append_assoc, String.toList_append]
      exact List.mem_append_left _ hm

theorem expansion_path_inRoot (hslash : '/' ∉ base.toList) (he : r.relativePath = base) :
    let text := Segment.expansion r settings
    text .path = "" ∧ text .folder = "" := by
  have hsplit : splitLast r.relativePath = (none, base) := by rw [he, splitLast_of_not_mem hslash]
  constructor
  · apply expansion_eq
    rw [pathPart, hsplit]
  · apply expansion_eq
    rw [pathPart, hsplit]

/-- The folder of a stylesheet below some directory is the last name of that directory. -/
theorem expansion_path_below (hslash : '/' ∉ base.toList) (hdir : dir ≠ "")
    (he : r.relativePath = dir ++ "/" ++ base) :
    let text := Segment.expansion r settings
    text .path = dir ++ "/" ∧ '/' ∉ (text .folder).toList ∧
      ∃ above, dir = above ++ text .folder ∧ (above = "" ∨ ∃ higher, above = higher ++ "/") := by
  intro text
  have hsplit : splitLast r.relativePath = (some dir, base) := by rw [he, splitLast_append hslash]
  have hpath : text .path = dir ++ "/" := by
    apply expansion_eq
    rw [pathPart, hsplit]
    exact congrArg some (if_neg fun hempty => hdir (String.isEmpty_iff.1 hempty))
  have hfolder : text .folder = (splitLast dir).2 := by
    apply expansion_eq
    rw [pathPart, hsplit]
  rw [hfolder]
  refine ⟨hpath, ?_⟩
  rcases splitLast_cases dir with ⟨hlast, hcut⟩ | ⟨higher, folder, hlast, rfl, hcut⟩
  · rw [hcut]
    exact ⟨hlast, "", String.empty_append.symm, .inl rfl⟩
  · rw [hcut]
    exact ⟨hlast, higher ++ "/", rfl, .inr ⟨higher, rfl⟩⟩

end Placement

/-- The directory, the stem and the extension of a stylesheet make up its path, and the directory ends
with the folder. -/
theorem expansion_recompose (settings : HashSettings) (hp : r.resourcePath.isAbsolute = true)
    (hpc : r.resourcePath.Canonical) (hroot : r.projectRoot.isAbsolute = true)
    (hrootc : r.projectRoot.Canonical)
    (hbelow : ¬r.resourcePath.location <+: r.projectRoot.location) :
    let text := Segment.expansion r settings
    text .path ++ text .name ++ text .ext = text .file ∧
      (text .path = "" ∧ text .folder = "" ∨
        ∃ above, text .path = above ++ text .folder ++ "/" ∧
          (above = "" ∨ ∃ higher, above = higher ++ "/")) ∧
      '/' ∉ (text .name).toList ∧ '/' ∉ (text .folder).toList ∧
      text .name ≠ "" ∧ (text .ext = "" ∨ ∃ e, text .ext = "." ++ e ∧ '.' ∉ e.toList) := by
  intro text
  obtain ⟨base, hstep, hfile⟩ := Path.exists_relativeTo_eq hp hpc hroot hrootc hbelow
  have hslash : '/' ∉ base.toList := hstep.1
  have hwhole : text .file = r.relativePath := expansion_eq rfl
  rcases hfile with he | ⟨dir, hdir, he⟩
  · have hbase : (splitLast r.relativePath).2 = base := by
      rw [relativePath, he, splitLast_of_not_mem hslash]
    obtain ⟨hpath, hfolder⟩ : text .path = "" ∧ text .folder = "" :=
      expansion_path_inRoot settings hslash he
    obtain ⟨hname, hrest⟩ : text .name ++ text .ext = base ∧ _ :=
      expansion_fileName settings hstep hbase
    refine ⟨?_, .inl ⟨hpath, hfolder⟩, hrest.1, ?_, hrest.2⟩
    · rw [hpath, String.empty_append, hname, hwhole, relativePath, he]
    · rw [hfolder]
      exact List.not_mem_nil
  · have hbase : (splitLast r.relativePath).2 = base := by
      rw [relativePath, he, splitLast_append hslash]
    obtain ⟨hpath, hfolder, above, habove, hend⟩ : text .path = dir ++ "/" ∧ _ :=
      expansion_path_below settings hslash hdir he
    obtain ⟨hname, hrest⟩ : text .name ++ text .ext = base ∧ _ :=
      expansion_fileName settings hstep hbase
    refine ⟨?_, .inr ⟨above, ?_, hend⟩, hrest.1, hfolder, hrest.2⟩
    · rw [String.append_assoc, hname, hpath, hwhole, relativePath, he]
    · rw [hpath, ← habove]

theorem expansion_recompose_outsideRoot :
    let r : Request := ⟨⟨"/lib/.theme/b.module.css."⟩, ⟨"/p/q"⟩, "x", none, none⟩
    let text := Segment.expansion r ⟨.default, none, .tiered⟩
    r.resourcePath.Canonical ∧ r.projectRoot.Canonical ∧
      ¬r.resourcePath.location <+: r.projectRoot.location ∧
      text .path = "../../lib/.theme/" ∧ text .folder = ".theme" ∧ text .name = "b.module.css" ∧
      text .ext = "." ∧ text .path ++ text .name ++ text .ext = text .file := by
  intro r text
  have hpa : r.resourcePath.isAbsolute = true := by decide +kernel
  have hroota : r.projectRoot.isAbsolute = true := by decide +kernel
  have hpc := Path.canonical_of_parent_not_mem hpa (by decide +kernel)
  have hrootc := Path.canonical_of_parent_not_mem hroota (by decide +kernel)
  have hbelow : ¬r.resourcePath.location <+: r.projectRoot.location := by decide +kernel
  have hfile := expansion_recompose ⟨.default, none, .tiered⟩ hpa hpc hroota hrootc hbelow
  refine ⟨hpc, hrootc, hbelow, ?_, ?_, ?_, ?_, hfile.1⟩ <;> decide +kernel

end Request

end CssModules
