import CssModules.Proofs.Stylesheet.Alike
import CssModules.Proofs.Stylesheet.Contents

namespace CssModules

namespace Stylesheet

variable {p : Path} {source : String} {sheet : Stylesheet} {ts us : List Token}

def Token.IsIdle (t : Token) : Prop :=
  (∃ body, t = .comment body) ∨ ∃ c, t = .other c ∧ Text.isSpace c = true

/-- Whether only blanks and comments follow the last closing brace or semicolon of a text. -/
def EndsDelimited (text : String) : Prop :=
  ∃ ts t us, Reads text.toList (ts ++ t :: us) ∧ (t = .closing ∨ t = .semicolon) ∧
    ∀ u ∈ us, u.IsIdle

def IsBlank (text : String) : Prop := ∃ us, Reads text.toList us ∧ ∀ u ∈ us, u.IsIdle

theorem Token.IsIdle.isDelimiter {t : Token} (h : t.IsIdle) : t.isDelimiter = false := by
  rcases h with ⟨body, rfl⟩ | ⟨c, rfl, -⟩
  · rfl
  · rfl

theorem Token.IsIdle.isSpace {t : Token} (h : t.IsIdle) {c : Char} (hc : c ∈ t.chars) :
    Text.isSpace c = true := by
  rcases h with ⟨body, rfl⟩ | ⟨d, rfl, hd⟩
  · cases hc
  · rw [List.mem_singleton.1 hc]
    exact hd

section Idle

variable (hlast : ∀ t ∈ ts.getLast?, t.isDelimiter = true) (hus : ∀ u ∈ us, u.IsIdle)

include hlast hus

theorem getLast?_ne_other {c : Char} (hc : Text.isSpace c = false) :
    (ts ++ us).getLast? ≠ some (.other c) := by
  intro he
  rw [List.getLast?_append, Option.or_eq_some_iff] at he
  rcases he with he | ⟨-, he⟩
  · have hspace := (hus _ (List.mem_of_getLast? he)).isSpace (List.mem_singleton_self c)
    rw [hc] at hspace
    cases hspace
  · cases hlast _ he

theorem behind_of_idle (hts : Reads source.toList (ts ++ us)) (h : parse p source = .ok sheet) :
    ∃ r, (lexemesOf ⟨1, 0⟩ (ts ++ us)).foldlM (Reading.step p) .initial = .ok r ∧
      r.Behind sheet .initial := by
  obtain ⟨r, hr, hfinish⟩ := exists_reading h
  obtain ⟨hblocks, rfl⟩ := finish_eq_ok_iff.1 hfinish
  rw [Lexeme.ofText_eq, Lexeme.lexemes_reads hts] at hr
  obtain ⟨before, stretch, he, hafter⟩ := Reading.after_initial.run hr
  have hdelimited : Delimited ts us := ⟨hlast, fun u hu => (hus u hu).isDelimiter⟩
  obtain ⟨-, rfl⟩ := hafter.delimited.unique hdelimited he
  refine ⟨r, hr, r.found.append_empty.symm, ?_, textOf stretch, ?_, ?_⟩
  · rw [hblocks]
    exact .nil
  · intro c hc
    obtain ⟨u, hu, hc⟩ := List.mem_flatMap.1 hc
    exact (hus u hu).isSpace hc
  · rw [hafter.text_eq]
    exact (List.append_nil _).symm

theorem corresponds_append_of_idle (hts : Reads source.toList (ts ++ us))
    (h : parse p source = .ok sheet) (more : String) :
    Corresponds p sheet.append (parse p (source ++ more)) (parse p more) := by
  apply Parallel.parse
  obtain ⟨r, hr, hbehind⟩ := behind_of_idle hlast hus hts h
  have hends : ∀ c ∈ ['\\', '/'], (ts ++ us).getLast? ≠ some (.other c) := by
    intro c hc
    apply getLast?_ne_other hlast hus
    rcases List.mem_pair.1 hc with rfl | rfl <;> rfl
  have hto : ReadsTo more.toList (source ++ more).toList (ts ++ us) := by
    rw [String.toList_append]
    exact hts.readsTo_append hends
  rw [Lexeme.ofText_eq, Lexeme.lexemes_readsTo hto, ofLexemes, List.foldlM_append, hr]
  exact hbehind.run (Lexeme.Scanner.lexemes_alike .plain more.toList)

end Idle

theorem corresponds_append (hend : EndsDelimited source ∨ IsBlank source)
    (h : parse p source = .ok sheet) (more : String) :
    Corresponds p sheet.append (parse p (source ++ more)) (parse p more) := by
  rcases hend with ⟨ts, t, us, hts, ht, hus⟩ | ⟨us, hts, hus⟩
  · have hlast : ∀ s ∈ (ts ++ [t]).getLast?, s.isDelimiter = true := by
      intro s hs
      rw [List.getLast?_concat, Option.mem_some_iff] at hs
      subst hs
      rcases ht with rfl | rfl <;> rfl
    rw [List.append_cons] at hts
    exact corresponds_append_of_idle hlast hus hts h more
  · have hlast : ∀ s ∈ ([] : List Token).getLast?, s.isDelimiter = true := nofun
    exact corresponds_append_of_idle hlast hus hts h more

/-- Whether what a stylesheet declares begins with what another one does. -/
structure Leads (sheet whole : Stylesheet) : Prop where
  localNames : sheet.localNames <+: whole.localNames
  compositions : sheet.compositions <+: whole.compositions

theorem Leads.refl (sheet : Stylesheet) : sheet.Leads sheet := ⟨List.prefix_rfl, List.prefix_rfl⟩

theorem Leads.trans {s t u : Stylesheet} (h : s.Leads t) (h' : t.Leads u) : s.Leads u :=
  ⟨h.localNames.trans h'.localNames, h.compositions.trans h'.compositions⟩

namespace Reading

variable {r r' : Reading} {l : Lexeme} {ls : List Lexeme}

theorem openBlock_leads (r : Reading) (start : Position) : r.found.Leads (r.openBlock start).found := by
  rw [openBlock]
  split
  · exact .refl _
  · exact .refl _
  · exact ⟨prefix_addNames .., List.prefix_rfl⟩

theorem declare_leads (h : r.declare p = .ok r') : r.found.Leads r'.found := by
  rw [declare] at h
  split at h
  · cases h
    exact .refl _
  · split at h
    · cases h
      exact .refl _
    · split at h
      · dsimp only at h
        split at h
        · cases h
        · cases h
          exact ⟨List.prefix_rfl, List.prefix_append ..⟩
      · cases h

theorem step_leads (h : r.step p l = .ok r') : r.found.Leads r'.found := by
  cases l with
  | text =>
    cases h
    exact .refl _
  | opening =>
    cases h
    exact r.openBlock_leads _
  | semicolon => exact declare_leads h
  | closing =>
    obtain ⟨declared, b, blocks, hdeclared, -, rfl⟩ := step_closing_eq_ok_iff.1 h
    have hleads := declare_leads hdeclared
    exact hleads
  | fault => cases h

theorem foldlM_leads (h : ls.foldlM (Reading.step p) r = .ok r') : r.found.Leads r'.found := by
  induction ls generalizing r with
  | nil =>
    cases h
    exact .refl _
  | cons l ls ih =>
    rw [List.foldlM_cons, bind_eq_ok_iff] at h
    obtain ⟨r₁, hl, h⟩ := h
    exact (step_leads hl).trans (ih h)

theorem foldlM_finish {s : Lexeme.Scanner} (h : s.finish.foldlM (Reading.step p) r = .ok r') :
    r'.found = r.found := by
  obtain ⟨mode, q⟩ := s
  cases mode with
  | plain | slash | pair =>
    cases h
    rfl
  | comment | string | stringPair => cases h

end Reading

theorem exists_run (h : parse p source = .ok sheet) :
    ∃ r, (Lexeme.Scanner.initial.run source.toList).1.foldlM (Reading.step p) .initial = .ok r ∧
      r.found = sheet := by
  obtain ⟨r', hr', hfinish⟩ := exists_reading h
  obtain ⟨-, rfl⟩ := finish_eq_ok_iff.1 hfinish
  rw [Lexeme.ofText, List.foldlM_append, bind_eq_ok_iff] at hr'
  obtain ⟨r, hr, hend⟩ := hr'
  exact ⟨r, hr, (Reading.foldlM_finish hend).symm⟩

theorem parse_append_leads {more : String} {whole : Stylesheet} (h : parse p source = .ok sheet)
    (hwhole : parse p (source ++ more) = .ok whole) : sheet.Leads whole := by
  obtain ⟨r, hr, rfl⟩ := exists_run h
  obtain ⟨r', hr', rfl⟩ := exists_run hwhole
  rw [String.toList_append, Lexeme.Scanner.run_append, List.foldlM_append, hr] at hr'
  exact Reading.foldlM_leads hr'

/-- A text behind a complete one, or behind blanks and comments, is read as it is read by itself,
and adds its compositions and its new classes. Behind any text that is read, what has been found
before stays in front. -/
theorem parse_concat (p : Path) (source : String) (sheet : Stylesheet)
    (h : parse p source = .ok sheet) :
    (EndsDelimited source ∨ IsBlank source → ∀ more,
      Corresponds p sheet.append (parse p (source ++ more)) (parse p more)) ∧
    ∀ more whole, parse p (source ++ more) = .ok whole →
      sheet.localNames <+: whole.localNames ∧ sheet.compositions <+: whole.compositions := by
  constructor
  · intro hend more
    exact corresponds_append hend h more
  · intro more whole hwhole
    obtain ⟨hnames, hcompositions⟩ := parse_append_leads h hwhole
    exact ⟨hnames, hcompositions⟩

theorem parse_concat_repeated :
    let p : Path := ⟨"/p/a.css"⟩
    let source := ".a\x7b\x7d /**/"
    let more := ".b\x7b\x7d .a\x7b\x7d"
    parse p source = .ok ⟨["a"], []⟩ ∧ EndsDelimited source ∧ parse p more = .ok ⟨["b", "a"], []⟩ ∧
      parse p (source ++ more) = .ok ⟨["a", "b"], []⟩ := by
  intro p source more
  have h : parse p source = .ok ⟨["a"], []⟩ := by decide +kernel
  have hmore : parse p more = .ok ⟨["b", "a"], []⟩ := by decide +kernel
  have hend : EndsDelimited source := by
    refine ⟨[.other '.', .other 'a', .opening], .closing, [.other ' ', .comment []], ?_, .inl rfl, ?_⟩
    · have htext : source.toList = ".a".toList ++ '\x7b' :: '\x7d' :: ' ' :: "/**/".toList := by decide
      have hcomment : Reads "/**/".toList [.comment []] :=
        .comment (show ¬['*', '/'] <:+: [] by simp) .nil
      rw [htext]
      apply Reads.other (by decide) (by decide)
      apply Reads.other (by decide) (by decide)
      apply Reads.opening
      apply Reads.closing
      exact .other (by decide) (by decide) hcomment
    · intro u hu
      rcases List.mem_pair.1 hu with rfl | rfl
      · exact .inr ⟨' ', rfl, rfl⟩
      · exact .inl ⟨[], rfl⟩
  have hwhole := (parse_concat p source _ h).1 (.inl hend) more
  rw [hmore] at hwhole
  refine ⟨h, hend, hmore, ?_⟩
  generalize parse p (source ++ more) = result at hwhole
  cases hwhole
  decide

end Stylesheet

end CssModules
