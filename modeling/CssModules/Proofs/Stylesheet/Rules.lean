import CssModules.Proofs.Stylesheet.Acceptance
import CssModules.Proofs.Text.Trim

namespace CssModules

namespace Stylesheet

/-- What has been read, but for the places. -/
structure State where
  found : Stylesheet
  blocks : List (BlockKind × Option String)
  text : List Char

def Reading.state (r : Reading) : State where
  found := r.found
  blocks := r.blocks.map fun b => (b.kind, b.soleClass)
  text := r.text

/-- Whether tokens, wherever they stand, bring a reading from one state to another. -/
def Brings (p : Path) (ts : List Token) (s s' : State) : Prop :=
  ∀ q r, r.state = s → ∃ r', (lexemesOf q ts).foldlM (Reading.step p) r = .ok r' ∧ r'.state = s'

/-- Whether the end of a declaration brings a reading from one state to another. -/
def Declares (p : Path) (s s' : State) : Prop :=
  ∀ r : Reading, r.state = s → ∃ r', r.declare p = .ok r' ∧ r'.state = s'

variable {p : Path} {cs name value : List Char} {ts us : List Token} {s s' s'' : State}
  {found : Stylesheet} {blocks : List (BlockKind × Option String)} {rest : List Char}

theorem Brings.append (h : Brings p ts s s') (h' : Brings p us s' s'') :
    Brings p (ts ++ us) s s'' := by
  intro q r hr
  obtain ⟨r', hrun, hr'⟩ := h q r hr
  obtain ⟨r'', hrun', hr''⟩ := h' (q.past (ts.flatMap Token.counted)) r' hr'
  refine ⟨r'', ?_, hr''⟩
  rw [lexemesOf_append, List.foldlM_append, hrun]
  exact hrun'

theorem brings_stretch (p : Path) (s : State) (h : ∀ t ∈ ts, t.isDelimiter = false) :
    Brings p ts s { s with text := s.text ++ textOf ts } := by
  induction ts generalizing s with
  | nil =>
    intro q r hr
    refine ⟨r, rfl, ?_⟩
    rw [hr, textOf, List.flatMap_nil, List.append_nil]
  | cons t ts ih =>
    intro q r hr
    obtain ⟨ht, hts⟩ := List.forall_mem_cons.1 h
    obtain ⟨r', hrun, hr'⟩ := ih { s with text := s.text ++ t.chars } hts (q.past t.counted)
      { r with
        text := r.text ++ t.chars
        textStart := if r.textStart.isNone && t.isVisible then some q.beside else r.textStart }
      (by subst hr; rfl)
    refine ⟨r', ?_, ?_⟩
    · rw [lexemesOf, List.foldlM_append, Reading.foldlM_stretch p q r ht]
      exact hrun
    · rw [hr', textOf, textOf, List.flatMap_cons, List.append_assoc]

def soleClass (selector : List Char) : Option String :=
  match Selector.localClasses selector with
  | [c] => if selector = '.' :: c then some (String.ofList c) else none
  | _ => none

theorem brings_opening_dot (p : Path) (htext : Text.trim cs = '.' :: name) :
    Brings p [.opening] ⟨found, [], cs⟩
      ⟨⟨addNames found.localNames ((Selector.localClasses ('.' :: name)).map String.ofList),
        found.compositions⟩, [(.rule, soleClass ('.' :: name))], []⟩ := by
  rintro q ⟨found', blocks, text, start⟩ hr
  obtain ⟨rfl, hblocks, rfl⟩ := State.mk.injEq .. ▸ hr
  obtain rfl := List.map_eq_nil_iff.1 hblocks
  refine ⟨_, rfl, ?_⟩
  simp only [Reading.openBlock, htext]
  rfl

theorem brings_opening (p : Path) (htext : Text.trim cs = '.' :: name)
    (hname : Selector.IsClass name) :
    Brings p [.opening] ⟨found, [], cs⟩
      ⟨{ found with localNames := addNames found.localNames [String.ofList name] },
        [(.rule, some (String.ofList name))], []⟩ := by
  rintro q ⟨found', blocks, text, start⟩ hr
  obtain ⟨rfl, hblocks, rfl⟩ := State.mk.injEq .. ▸ hr
  obtain rfl := List.map_eq_nil_iff.1 hblocks
  refine ⟨_, rfl, ?_⟩
  simp [Reading.openBlock, htext, Selector.localClasses_eq_singleton_iff.2 hname, Reading.state,
    Reading.clear]

theorem brings_semicolon (h : Declares p s s') : Brings p [.semicolon] s s' := by
  intro q r hr
  obtain ⟨r', hdeclare, hr'⟩ := h r hr
  refine ⟨r', ?_, hr'⟩
  rw [lexemesOf, lexemesOf, List.append_nil, Token.lexemes, Reading.foldlM_singleton]
  exact hdeclare

theorem brings_closing {b : BlockKind × Option String} (h : Declares p s ⟨found, b :: blocks, cs⟩) :
    Brings p [.closing] s ⟨found, blocks, cs⟩ := by
  intro q r hr
  obtain ⟨⟨found', blocks', text, start⟩, hdeclare, hr'⟩ := h r hr
  obtain ⟨rfl, hblocks, rfl⟩ := State.mk.injEq .. ▸ hr'
  obtain ⟨b', around, rfl, -, rfl⟩ := List.map_eq_cons_iff.1 hblocks
  refine ⟨⟨found', around, text, start⟩, ?_, rfl⟩
  rw [lexemesOf, lexemesOf, List.append_nil, Token.lexemes, Reading.foldlM_singleton,
    Reading.step_closing_eq_ok_iff]
  exact ⟨_, b', around, hdeclare, rfl, rfl⟩

theorem declares_blank (h : ∀ c ∈ cs, Text.isSpace c = true) :
    Declares p ⟨found, blocks, cs⟩ ⟨found, blocks, []⟩ := by
  rintro ⟨found', blocks', text, start⟩ hr
  obtain ⟨rfl, rfl, rfl⟩ := State.mk.injEq .. ▸ hr
  refine ⟨⟨found', blocks', [], none⟩, ?_, rfl⟩
  rw [Reading.declare, Text.trim_of_blank h]
  rfl

theorem declares_composition {owner : String}
    (htext : Text.trim cs = "composes:".toList ++ value)
    (hnames : Composition.tokensOf (Composition.splitSource p (Text.trim value)).1 ≠ []) :
    Declares p ⟨found, (.rule, some owner) :: blocks, cs⟩
      ⟨{ found with compositions := found.compositions ++
          [⟨owner, Composition.tokensOf (Composition.splitSource p (Text.trim value)).1,
            (Composition.splitSource p (Text.trim value)).2⟩] },
        (.rule, some owner) :: blocks, []⟩ := by
  rintro ⟨found', blocks', text, start⟩ hr
  obtain ⟨rfl, hblocks, rfl⟩ := State.mk.injEq .. ▸ hr
  obtain ⟨⟨kind, sole, place⟩, around, rfl, hb, rfl⟩ := List.map_eq_cons_iff.1 hblocks
  obtain ⟨rfl, rfl⟩ := Prod.mk.injEq .. ▸ hb
  have hcut : Composition.splitColon (Text.trim text) = some ("composes".toList, value) :=
    splitColon_eq_some_iff.2 ⟨htext, by decide⟩
  refine ⟨⟨_, ⟨.rule, some owner, place⟩ :: around, [], none⟩, ?_, rfl⟩
  have hcomposing : Composition.isComposing "composes".toList = true := by decide
  simp only [Reading.declare, hcut, hcomposing, Bool.not_true, Bool.false_eq_true, if_false,
    List.isEmpty_eq_false_iff.2 hnames]
  rfl

theorem textOf_append (ts us : List Token) : textOf (ts ++ us) = textOf ts ++ textOf us :=
  List.flatMap_append

theorem trim_composes {v front : List Char} {d : Char} (hd : Text.isSpace d = false)
    (hv : ∀ c ∈ v, Text.isSpace c = true) (he : value = front ++ [d]) :
    Text.trim (" composes: ".toList ++ (value ++ v)) = "composes:".toList ++ ' ' :: value := by
  have hlast : 'c' :: ("omposes: ".toList ++ value) = ("composes: ".toList ++ front) ++ [d] := by
    rw [he]
    rfl
  exact Text.trim_append Text.isSpace_blank hv rfl hd hlast

theorem brings_composing {head body ending : List Token}
    (hhead : ∀ t ∈ head, t.isDelimiter = false) (hbody : ∀ t ∈ body, t.isDelimiter = false)
    (hselector : Text.trim (cs ++ textOf head) = '.' :: name) (hname : Selector.IsClass name)
    (htext : Text.trim (textOf body) = "composes:".toList ++ value)
    (hnames : Composition.tokensOf (Composition.splitSource p (Text.trim value)).1 ≠ [])
    (hending : ending = [.closing] ∨ ending = [.semicolon, .other ' ', .closing]) :
    Brings p (head ++ ([.opening] ++ (body ++ ending))) ⟨found, [], cs⟩
      ⟨⟨addNames found.localNames [String.ofList name], found.compositions ++
          [⟨String.ofList name,
            Composition.tokensOf (Composition.splitSource p (Text.trim value)).1,
            (Composition.splitSource p (Text.trim value)).2⟩]⟩, [], []⟩ := by
  have hopening : Brings p [.opening] ⟨found, [], cs ++ textOf head⟩ _ :=
    brings_opening p hselector hname
  apply (brings_stretch p _ hhead).append
  apply hopening.append
  apply (brings_stretch p _ hbody).append
  have hdeclares : Declares p ⟨⟨addNames found.localNames [String.ofList name],
      found.compositions⟩, [(.rule, some (String.ofList name))], [] ++ textOf body⟩ _ :=
    declares_composition htext hnames
  rcases hending with rfl | rfl
  · exact brings_closing hdeclares
  · apply (brings_semicolon hdeclares).append
    have hspace : ∀ t ∈ [Token.other ' '], t.isDelimiter = false := by simp [Token.isDelimiter]
    apply (brings_stretch p _ hspace).append
    exact brings_closing (declares_blank (by simp [textOf, Token.chars, Text.isSpace]))

theorem parse_of_brings {source : String} {sheet : Stylesheet} {text : List Char}
    (hts : Reads source.toList ts) (h : Brings p ts ⟨.empty, [], []⟩ ⟨sheet, [], text⟩) :
    parse p source = .ok sheet := by
  obtain ⟨⟨found, blocks, text', start⟩, hrun, hr⟩ := h ⟨1, 0⟩ .initial rfl
  obtain ⟨rfl, hblocks, rfl⟩ := State.mk.injEq .. ▸ hr
  obtain rfl := List.map_eq_nil_iff.1 hblocks
  rw [parse_eq_ok_iff, Lexeme.ofText_eq, Lexeme.lexemes_reads hts, ofLexemes, hrun]
  rfl

def isPlain (c : Char) : Bool := c ∉ ['"', '\'', '\\', '\x7b', '\x7d', ';', '/']

theorem isPlain_of_class {p : Char → Bool} {c : Char}
    (hp : ['"', '\'', '\\', '\x7b', '\x7d', ';', '/'].any p = false) (h : p c = true) :
    isPlain c = true := by
  rw [isPlain, decide_eq_true_eq]
  intro hc
  exact List.any_eq_false.1 hp c hc h

theorem isPlain_of_isSpace {c : Char} (h : Text.isSpace c = true) : isPlain c = true :=
  isPlain_of_class rfl h

theorem isPlain_of_isNameChar {c : Char} (h : Selector.isNameChar c = true) : isPlain c = true :=
  isPlain_of_class rfl h

theorem readsTo_plain (h : ∀ c ∈ cs, isPlain c = true) (rest : List Char) :
    ReadsTo rest (cs ++ rest) (cs.map .other) := by
  induction cs with
  | nil => exact .nil
  | cons c cs ih =>
    obtain ⟨hc, hcs⟩ := List.forall_mem_cons.1 h
    refine .cons (.other ?_ ?_) (ih hcs)
    · simp_all [isPlain]
    · rintro rfl
      cases hc

theorem textOf_map_other (cs : List Char) : textOf (cs.map .other) = cs := by
  induction cs with
  | nil => rfl
  | cons c cs ih => exact congrArg (c :: ·) ih

theorem isDelimiter_map_other : ∀ t ∈ cs.map Token.other, t.isDelimiter = false := by
  intro t ht
  obtain ⟨c, -, rfl⟩ := List.mem_map.1 ht
  rfl

theorem exists_readsTo_escape {digits ds : List Char} (hne : digits ≠ [])
    (hdigits : ∀ d ∈ digits, (Identifier.hexValue? d).isSome = true) (hts : ReadsTo rest ds ts)
    (hdelimiters : ∀ t ∈ ts, t.isDelimiter = false) :
    ∃ us, ReadsTo rest ('\\' :: (digits ++ ds)) us ∧
      textOf us = '\\' :: (digits ++ textOf ts) ∧ ∀ t ∈ us, t.isDelimiter = false := by
  obtain ⟨d, digits, rfl⟩ := List.exists_cons_of_ne_nil hne
  have hplain : ∀ c ∈ digits, isPlain c = true := by
    intro c hc
    apply isPlain_of_isNameChar
    rw [Selector.isNameChar_eq]
    exact Identifier.isNameChar_of_hexValue? (hdigits c (List.mem_cons_of_mem _ hc))
  refine ⟨.pair d :: (digits.map .other ++ ts), ?_, ?_, ?_⟩
  · exact .cons .pair ((readsTo_plain hplain ds).append hts)
  · have htext : textOf (digits.map Token.other ++ ts) = digits ++ textOf ts := by
      rw [textOf_append, textOf_map_other]
    rw [textOf, List.flatMap_cons, ← textOf, htext]
    rfl
  · rw [List.forall_mem_cons, List.forall_mem_append]
    exact ⟨rfl, isDelimiter_map_other, hdelimiters⟩

/-- A name with a blank behind it holds no delimiter, whatever it escapes. A backslash at its end
takes the blank with it. -/
theorem exists_readsTo_name (hname : Selector.Name cs) (rest : List Char) :
    ∃ ts, ReadsTo rest (cs ++ ' ' :: rest) ts ∧ textOf ts = cs ++ [' '] ∧
      ∀ t ∈ ts, t.isDelimiter = false := by
  have hblank {ds : List Char} {ts : List Token} (hts : ReadsTo rest ds ts) :
      ReadsTo rest (' ' :: ds) (.other ' ' :: ts) :=
    .cons (.other (by decide) nofun) hts
  induction hname with
  | nil => exact ⟨[.other ' '], hblank .nil, rfl, by simp [Token.isDelimiter]⟩
  | @char c cs hc _ ih =>
    obtain ⟨ts, hts, htext, hdelimiters⟩ := ih
    have hc' : ∀ d ∈ [c], isPlain d = true := by simp [isPlain_of_isNameChar hc]
    refine ⟨.other c :: ts, (readsTo_plain hc' _).append hts, ?_, ?_⟩
    · exact congrArg (c :: ·) htext
    · exact List.forall_mem_cons.2 ⟨rfl, hdelimiters⟩
  | @symbol c cs _ _ ih =>
    obtain ⟨ts, hts, htext, hdelimiters⟩ := ih
    refine ⟨.pair c :: ts, .cons .pair hts, ?_, ?_⟩
    · exact congrArg (['\\', c] ++ ·) htext
    · exact List.forall_mem_cons.2 ⟨rfl, hdelimiters⟩
  | hex hne _ hdigits _ ih =>
    obtain ⟨ts, hts, htext, hdelimiters⟩ := ih
    have hread := exists_readsTo_escape hne hdigits hts hdelimiters
    rw [htext] at hread
    simpa using hread
  | hexBlank hne _ hdigits _ ih =>
    obtain ⟨ts, hts, htext, hdelimiters⟩ := ih
    have hread := exists_readsTo_escape hne hdigits (hblank hts)
      (List.forall_mem_cons.2 ⟨rfl, hdelimiters⟩)
    have htext' : textOf (.other ' ' :: ts) = ' ' :: textOf ts := rfl
    rw [htext', htext] at hread
    simpa using hread
  | backslash => exact ⟨[.pair ' '], .cons .pair .nil, rfl, by simp [Token.isDelimiter]⟩

end Stylesheet

end CssModules
