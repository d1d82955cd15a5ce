import CssModules.Proofs.Identifier.Endings
import CssModules.Proofs.Identifier.Legality
import CssModules.Proofs.Resolution.Keys
import CssModules.Proofs.Stylesheet.Outline
import CssModules.Proofs.Stylesheet.Rules

namespace CssModules

namespace System

variable {σ : Type} {h : Host σ} {s : System σ} {p : Path} {f : Frame} {m : TokenMap}

theorem enter_of_uncomposed {sheet : Stylesheet} {state : σ} (hparse : (h.parse p state).1 = .ok sheet)
    (hcompositions : sheet.compositions = []) :
    (Task.enter h p [] state).1 =
      (.complete (Task.declare h p sheet.localNames .empty (h.parse p state).2).1,
        [⟨p, (Task.declare h p sheet.localNames .empty (h.parse p state).2).1, none, []⟩]) := by
  have hread : h.parse p state = (.ok sheet, (h.parse p state).2) := Prod.ext hparse rfl
  rw [Task.enter, hread]
  dsimp only
  rw [hcompositions, Task.fold]

theorem resolveAt_of_complete (hslot : s.cache.slot? p.location = none)
    (henter : (Task.enter h p [] s.state).1 = (.complete m, [f])) {fuel : ℕ} (hfuel : 2 ≤ fuel) :
    ∃ number s', s.resolveAt h fuel p = (some (.ok ⟨number, m⟩), s') := by
  have hclaim : (s.start s.freshId p).At s.freshId (.claim p, []) := by
    simp [At, task?_start]
  have hcomplete := at_step_enter (h := h) hclaim hslot
  have hstate : (s.start s.freshId p).state = s.state := rfl
  rw [hstate, henter] at hcomplete
  have hdone := at_step_complete (h := h) hcomplete
  obtain ⟨more, rfl⟩ := Nat.exists_eq_add_of_le hfuel
  have hanswer := answer?_eq_some_iff.2 ⟨[], hdone⟩
  refine ⟨((s.start s.freshId p).step h s.freshId).finished, _, Prod.ext ?_ rfl⟩
  rw [System.resolveAt]
  simp only [runAlone_eq_run, ← List.replicate_append_replicate, run_append]
  have htwo : (s.start s.freshId p).run h (List.replicate 2 (.step s.freshId)) =
      ((s.start s.freshId p).step h s.freshId).step h s.freshId := rfl
  rw [htwo, run_replicate_of_answer? hanswer, hanswer]

end System

namespace TokenMap

theorem keys_foldl_insert (f : String → String) {m : TokenMap} {names : List String}
    (h : (m.keys ++ names.map Identifier.unescape).Nodup) :
    (names.foldl (fun tokens name => tokens.insert (Identifier.unescape name) (f name)) m).keys =
      m.keys ++ names.map Identifier.unescape := by
  induction names generalizing m with
  | nil => exact (List.append_nil _).symm
  | cons name names ih =>
    have hnew : Identifier.unescape name ∉ m.keys := by
      intro hmem
      exact (List.nodup_append.1 h).2.2 _ hmem _ (List.mem_cons_self ..) rfl
    have hkeys : (m.insert (Identifier.unescape name) (f name)).keys =
        m.keys ++ [Identifier.unescape name] := by
      rw [keys_insert, if_neg hnew]
    rw [List.map_cons, List.append_cons] at h
    rw [List.foldl_cons, ih (by rwa [hkeys]), hkeys, List.map_cons, ← List.append_cons]

end TokenMap

theorem Session.resolveAt_uncomposed {read : Path → Except Error Stylesheet} {p : Path}
    {sheet : Stylesheet} (hread : read p = .ok sheet) (hcompositions : sheet.compositions = [])
    (hnames : (sheet.localNames.map Identifier.unescape).Nodup) (n : Naming)
    (name? : Path → Option String) {s : System Session} (hslot : s.cache.slot? p.location = none)
    {fuel : ℕ} (hfuel : 2 ≤ fuel) :
    ∃ finished s', s.resolveAt (host read n name?) fuel p = (some (.ok finished), s') ∧
      finished.map.keys = sheet.localNames.map Identifier.unescape := by
  have hparse : ((host read n name?).parse p s.state).1 = .ok sheet :=
    (parse_eq read p s.state).trans hread
  have hentered := System.enter_of_uncomposed hparse hcompositions
  obtain ⟨number, s', hs⟩ := System.resolveAt_of_complete hslot hentered hfuel
  refine ⟨_, s', hs, ?_⟩
  have hempty : TokenMap.SameKeys .empty .empty := rfl
  have hkeys := Task.sameKeys_declare (host read n name?) (fun _ => "") p sheet.localNames hempty
    ((host read n name?).parse p s.state).2
  exact hkeys.trans (TokenMap.keys_foldl_insert _ hnames)

namespace Stylesheet

open Identifier (IsIdent EndsBlank escape unescape)

variable {c : String}

theorem isClass_escape (h : IsIdent (escape c).toList) : Selector.IsClass (escape c).toList := by
  obtain ⟨hname, hstart⟩ := Identifier.isIdent_iff.1 h
  refine Selector.isClass_iff.2 ⟨?_, ?_⟩
  · apply Selector.name_of_isName hname
    intro d hd
    exact Identifier.isLayout_of_mem_escape hd
  · unfold Identifier.startsIdent at hstart
    unfold Selector.isClassName
    split at hstart <;> simp_all

theorem name_trimEnd_escape (h : IsIdent (escape c).toList) :
    Selector.Name (Text.trimEnd (escape c).toList) := by
  obtain ⟨w, -, he⟩ := Text.exists_trimEnd_append (escape c).toList
  have hname := (isClass_escape h).1
  rw [he] at hname
  exact hname.of_append

theorem parse_escapedRule (p : Path) (h : IsIdent (escape c).toList) :
    parse p ("." ++ escape c ++ " { }") =
      .ok ⟨(Selector.localClasses ('.' :: Text.trimEnd (escape c).toList)).map String.ofList, []⟩ := by
  obtain ⟨ts, hts, htext, hdelimiters⟩ :=
    exists_readsTo_name (isClass_escape h).1 "{ }".toList
  have hreads : Reads ("." ++ escape c ++ " { }").toList
      ((.other '.' :: ts) ++ [.opening, .other ' ', .closing]) := by
    have hend : Reads "{ }".toList [.opening, .other ' ', .closing] :=
      .opening (.other (by decide) nofun (.closing .nil))
    have hrule := Reads.other (c := '.') (by decide) nofun (hts.finish hend)
    have hdot : ".".toList = ['.'] := rfl
    have hblank : " \x7b \x7d".toList = ' ' :: "\x7b \x7d".toList := rfl
    rw [String.toList_append, String.toList_append, hdot, hblank, List.append_assoc,
      List.singleton_append, List.cons_append]
    exact hrule
  have hselector : Text.trim ([] ++ textOf (.other '.' :: ts)) =
      '.' :: Text.trimEnd (escape c).toList := by
    have htext' : [] ++ textOf (.other '.' :: ts) = '.' :: ((escape c).toList ++ [' ']) :=
      congrArg ('.' :: ·) htext
    rw [htext', Text.trim, Text.trimStart_cons rfl, Text.trimEnd_cons rfl,
      Text.trimEnd_append Text.isSpace_blank]
  have hhead : ∀ t ∈ Token.other '.' :: ts, t.isDelimiter = false :=
    List.forall_mem_cons.2 ⟨rfl, hdelimiters⟩
  have hspace : ∀ t ∈ [Token.other ' '], t.isDelimiter = false := by simp [Token.isDelimiter]
  have hbrings : Brings p ((.other '.' :: ts) ++ ([.opening] ++ ([.other ' '] ++ [.closing])))
      ⟨.empty, [], []⟩ ⟨⟨addNames [] ((Selector.localClasses
        ('.' :: Text.trimEnd (escape c).toList)).map String.ofList), []⟩, [], []⟩ := by
    apply (brings_stretch p _ hhead).append
    apply (brings_opening_dot p hselector).append
    apply (brings_stretch p _ hspace).append
    exact brings_closing (declares_blank (by simp [textOf, Token.chars, Text.isSpace]))
  rw [parse_of_brings hreads hbrings, (name_trimEnd_escape h).localClasses_dot]
  split <;> rfl

/-- A rule for the spelling of a name is read to its end, and the keys of its map are the classes that
it declares. It declares the name, and nothing else, exactly if that does not end with a blank that
is kept as it is. -/
theorem parse_escaped (c : String) (h : IsIdent (escape c).toList) (p : Path) :
    ∃ sheet, parse p ("." ++ escape c ++ " { }") = .ok sheet ∧ sheet.compositions = [] ∧
      (sheet.localNames.map unescape = [c] ↔ ¬EndsBlank c) ∧
      ∀ (n : Naming) (read : Path → Except Error Stylesheet) (name? : Path → Option String)
        (s : System Session), read p = .ok sheet → s.cache.slot? p.location = none →
        ∀ fuel ≥ 2, ∃ finished s',
          s.resolveAt (Session.host read n name?) fuel p = (some (.ok finished), s') ∧
            finished.map.keys = sheet.localNames.map unescape := by
  have hparse := parse_escapedRule p h
  have hlocal := (name_trimEnd_escape h).localClasses_dot
  refine ⟨_, hparse, rfl, ?_, ?_⟩
  · by_cases hend : EndsBlank c
    · have hne := Identifier.unescape_trimEnd_escape_ne hend
      rw [hlocal]
      split <;> simp [hend, hne]
    · have hclass := (Selector.isClass_iff.1 (isClass_escape h)).2
      rw [hlocal, Identifier.trimEnd_escape hend, if_pos hclass]
      simp [hend, Identifier.unescape_escape]
  · intro n read name? s hread hslot fuel hfuel
    apply Session.resolveAt_uncomposed hread rfl _ n name? hslot hfuel
    rw [hlocal]
    split
    · exact List.nodup_singleton _
    · exact List.nodup_nil

theorem parse_escaped_layout :
    IsIdent (escape "-1 \x7b\t").toList ∧ ¬EndsBlank "-1 \x7b\t" ∧
      ∃ sheet, parse ⟨"/p/a.css"⟩ ("." ++ escape "-1 \x7b\t" ++ " \x7b \x7d") = .ok sheet ∧
        sheet.localNames.map unescape = ["-1 \x7b\t"] ∧ ∀ (n : Naming), ∃ finished s',
          (System.initial Session.empty).resolveAt
              (Session.host (fun _ => .ok sheet) n fun _ => none) 2 ⟨"/p/a.css"⟩ =
            (some (.ok finished), s') ∧ finished.map.keys = ["-1 \x7b\t"] := by
  have hident : IsIdent (escape "-1 \x7b\t").toList :=
    (Identifier.isIdent_escape_iff _).2 ⟨by decide, by decide, by simp [Identifier.isBare]⟩
  have hend : ¬EndsBlank "-1 \x7b\t" := by decide
  obtain ⟨sheet, hparse, -, hnames, hmap⟩ := parse_escaped "-1 \x7b\t" hident ⟨"/p/a.css"⟩
  refine ⟨hident, hend, sheet, hparse, hnames.2 hend, fun n => ?_⟩
  have hresolve := hmap n (fun _ => .ok sheet) (fun _ => none) (.initial Session.empty) rfl rfl 2 le_rfl
  rwa [hnames.2 hend] at hresolve

/-- The blank of an escaped space is trimmed from the selector, and its backslash stays behind. -/
theorem parse_escaped_space :
    IsIdent (escape "a ").toList ∧
      parse ⟨"/p/a.css"⟩ ("." ++ escape "a " ++ " \x7b \x7d") = .ok ⟨["a\\"], []⟩ ∧
      unescape "a\\" ≠ "a " := by
  have hident : IsIdent (escape "a ").toList :=
    (Identifier.isIdent_escape_iff _).2 ⟨by decide, by decide, by simp [Identifier.isBare]⟩
  exact ⟨hident, by decide +kernel, by decide +kernel⟩

end Stylesheet

end CssModules
