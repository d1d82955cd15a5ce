import CssModules.Proofs.Identifier.Grammar
import CssModules.Proofs.Stylesheet.Rules
import CssModules.Proofs.Stylesheet.Scan
import CssModules.Proofs.Text.Words

namespace CssModules

namespace Composition

/-- Whether `from` stands in a text, between two blanks. -/
def HoldsFrom (text : List Char) : Prop :=
  ∃ c d, Text.isSpace c = true ∧ Text.isSpace d = true ∧ c :: "from".toList ++ [d] <:+: text

def StartsFrom (text : List Char) : Prop :=
  ∃ d rest, Text.isSpace d = true ∧ text = "from".toList ++ d :: rest

variable {b : Bool} {c d q : Char} {cs u v before names source : List Char}

theorem holdsFrom_cons : HoldsFrom (c :: cs) ↔
    Text.isSpace c = true ∧ StartsFrom cs ∨ HoldsFrom cs := by
  constructor
  · rintro ⟨e, d, he, hd, hinfix⟩
    rcases List.infix_cons_iff.1 hinfix with ⟨rest, hfirst⟩ | hlater
    · obtain ⟨rfl, hcs⟩ := List.cons.inj hfirst
      exact .inl ⟨he, d, rest, hd, by simpa using hcs.symm⟩
    · exact .inr ⟨e, d, he, hd, hlater⟩
  · rintro (⟨hc, d, rest, hd, rfl⟩ | ⟨e, d, he, hd, hinfix⟩)
    · exact ⟨c, d, hc, hd, [], rest, by simp⟩
    · exact ⟨e, d, he, hd, hinfix.trans (List.suffix_cons c cs).isInfix⟩

theorem HoldsFrom.mono (h : HoldsFrom u) (huv : u <:+: v) : HoldsFrom v := by
  obtain ⟨c, d, hc, hd, hu⟩ := h
  exact ⟨c, d, hc, hd, hu.trans huv⟩

theorem lastFrom_cons_of_some (b : Bool)
    (h : lastFrom (Text.isSpace c) cs = some (names, source)) :
    lastFrom b (c :: cs) = some (c :: names, source) := by
  unfold lastFrom
  rw [h]

theorem lastFrom_of_startsFrom (hd : Text.isSpace d = true)
    (h : lastFrom false ("rom".toList ++ d :: cs) = none) :
    lastFrom true ("from".toList ++ d :: cs) = some ([], d :: cs) := by
  change lastFrom true ('f' :: ("rom".toList ++ d :: cs)) = _
  have hf : Text.isSpace 'f' = false := by decide
  unfold lastFrom
  rw [hf, h]
  exact if_pos hd

theorem lastFrom_cons_of_none (h : lastFrom (Text.isSpace c) cs = none)
    (hnot : ¬(b = true ∧ StartsFrom (c :: cs))) : lastFrom b (c :: cs) = none := by
  unfold lastFrom
  rw [h]
  dsimp only
  split
  · next d rest he =>
    split
    · next hd => exact absurd ⟨rfl, d, rest, hd, he⟩ hnot
    · rfl
  · rfl

theorem lastFrom_eq_none_iff :
    lastFrom b cs = none ↔ ¬HoldsFrom cs ∧ ¬(b = true ∧ StartsFrom cs) := by
  induction cs generalizing b with
  | nil => exact iff_of_true rfl (by simp [HoldsFrom, StartsFrom])
  | cons c cs ih =>
    rw [holdsFrom_cons, not_or, and_comm (a := ¬(_ ∧ _)), ← ih]
    cases hlater : lastFrom (Text.isSpace c) cs with
    | some cut => simp [lastFrom_cons_of_some b hlater]
    | none =>
      rw [and_iff_right rfl]
      constructor
      · rintro h ⟨rfl, d, rest, hd, he⟩
        obtain ⟨rfl, rfl⟩ := List.cons.inj he
        cases (lastFrom_of_startsFrom hd hlater).symm.trans h
      · exact lastFrom_cons_of_none hlater

instance : DecidablePred HoldsFrom := fun cs =>
  decidable_of_iff (lastFrom false cs ≠ none) (by simp [lastFrom_eq_none_iff])

theorem lastFrom_eq_some (h : lastFrom b cs = some (names, source)) :
    cs = names ++ ("from".toList ++ source) ∧ (∃ d ∈ source.head?, Text.isSpace d = true) ∧
      ¬HoldsFrom source := by
  induction cs generalizing b names with
  | nil => cases h
  | cons c cs ih =>
    cases hlater : lastFrom (Text.isSpace c) cs with
    | some cut =>
      rw [lastFrom_cons_of_some b hlater] at h
      obtain ⟨rfl, rfl⟩ := Prod.mk.inj (Option.some.inj h)
      obtain ⟨he, hrest⟩ := ih hlater
      exact ⟨congrArg (c :: ·) he, hrest⟩
    | none =>
      by_cases hstarts : b = true ∧ StartsFrom (c :: cs)
      · obtain ⟨rfl, d, rest, hd, he⟩ := hstarts
        obtain ⟨rfl, rfl⟩ := List.cons.inj he
        obtain ⟨rfl, rfl⟩ := Prod.mk.inj
          (Option.some.inj (h.symm.trans (lastFrom_of_startsFrom hd hlater)))
        refine ⟨rfl, ⟨d, rfl, hd⟩, fun hholds => ?_⟩
        refine (lastFrom_eq_none_iff.1 hlater).1 (hholds.mono ?_)
        exact (List.suffix_append ['r', 'o', 'm'] (d :: rest)).isInfix
      · rw [lastFrom_cons_of_none hlater hstarts] at h
        cases h

theorem lastFrom_append (hc : Text.isSpace c = true)
    (h : lastFrom true cs = some (names, source)) :
    lastFrom b (u ++ c :: cs) = some (u ++ c :: names, source) := by
  induction u generalizing b with
  | nil => exact lastFrom_cons_of_some b (hc ▸ h)
  | cons d u ih => exact lastFrom_cons_of_some b ih

theorem startsFrom_append_cons (hq : Text.isSpace q = false) (hfrom : q ∉ "from".toList) :
    StartsFrom (u ++ q :: v) ↔ StartsFrom u := by
  constructor
  · rintro ⟨d, rest, hd, he⟩
    rcases List.append_eq_append_iff.1 he with ⟨w, hw, hrest⟩ | ⟨w, rfl, hrest⟩
    · cases w with
      | nil =>
        obtain ⟨rfl, -⟩ := List.cons.inj hrest
        rw [hq] at hd
        cases hd
      | cons e w =>
        obtain ⟨rfl, -⟩ := List.cons.inj hrest
        exact absurd (hw ▸ List.mem_append_right u (List.mem_cons_self ..)) hfrom
    · cases w with
      | nil =>
        obtain ⟨rfl, -⟩ := List.cons.inj hrest
        rw [hq] at hd
        cases hd
      | cons e w =>
        obtain ⟨rfl, -⟩ := List.cons.inj hrest
        exact ⟨_, w, hd, rfl⟩
  · rintro ⟨d, rest, hd, rfl⟩
    exact ⟨d, rest ++ q :: v, hd, by simp⟩

theorem holdsFrom_append_cons (hq : Text.isSpace q = false) (hfrom : q ∉ "from".toList) :
    HoldsFrom (u ++ q :: v) ↔ HoldsFrom u ∨ HoldsFrom v := by
  induction u with
  | nil =>
    rw [List.nil_append, holdsFrom_cons]
    simp [hq, HoldsFrom]
  | cons c u ih =>
    rw [List.cons_append, holdsFrom_cons, holdsFrom_cons, ih, startsFrom_append_cons hq hfrom,
      or_assoc]

theorem HoldsFrom.mem (h : HoldsFrom cs) : 'f' ∈ cs := by
  obtain ⟨c, d, -, -, hinfix⟩ := h
  exact hinfix.subset (by simp)

section Quoted

variable {p : Path} {ahead specifier blanks : List Char}

theorem getLast?_quoted (ahead : List Char) :
    (ahead ++ q :: (specifier ++ [q])).getLast? = some q := by
  rw [← List.cons_append, ← List.append_assoc]
  exact List.getLast?_concat

theorem quoted_inj (hahead : q ∉ ahead) (hspecifier : q ∉ specifier) (hne : cs ≠ [])
    (he : before ++ q :: cs = ahead ++ q :: (specifier ++ [q])) :
    before = ahead ∧ cs = specifier ++ [q] := by
  obtain ⟨ds, d, rfl⟩ := (List.eq_nil_or_concat cs).resolve_left hne
  have hlast := congrArg List.getLast? he
  have hcount := congrArg (List.count q) he
  simp only [List.concat_eq_append, List.getLast?_append, List.getLast?_cons] at hlast
  obtain rfl : d = q := by simpa using hlast
  have hbefore : d ∉ before := by
    intro hmem
    have hpos := List.count_pos_iff.2 hmem
    simp [List.count_eq_zero_of_not_mem hahead, List.count_eq_zero_of_not_mem hspecifier] at hcount
    omega
  exact (Text.append_cons_inj hbefore hahead).1 he

theorem exists_blanks (cs : List Char) : ∃ blanks text, cs = blanks ++ text ∧
    (∀ c ∈ blanks, Text.isSpace c = true) ∧ ∀ c ∈ text.head?, Text.isSpace c = false := by
  refine ⟨cs.takeWhile Text.isSpace, cs.dropWhile Text.isSpace,
    List.takeWhile_append_dropWhile.symm, fun c => List.mem_takeWhile_imp, fun c hc => ?_⟩
  have hhead := List.head?_dropWhile_not Text.isSpace cs
  rw [Option.mem_def.1 hc] at hhead
  simpa using hhead

theorem isQuoted_iff {text : List Char} : isQuoted text = true ↔
    ∃ q c cs, (q = '"' ∨ q = '\'') ∧ text = q :: c :: cs ∧ text.getLast? = some q := by
  rw [isQuoted.eq_def]
  split
  · simp
  · simp
  · next hdouble hsingle =>
    refine iff_of_false (by simp) ?_
    rintro ⟨q, c, cs, rfl | rfl, rfl, -⟩
    · exact hdouble c cs rfl
    · exact hsingle c cs rfl

theorem splitSource_file (hq : q = '"' ∨ q = '\'') (hblanks : ∀ c ∈ blanks, Text.isSpace c = true)
    (h : lastFrom false cs = some (names, blanks ++ q :: (specifier ++ [q]))) (p : Path) :
    splitSource p cs = (Text.trimEnd names, fileSource p (String.ofList specifier)) := by
  have hspace : Text.isSpace q = false := by rcases hq with rfl | rfl <;> decide
  have htrim : Text.trim (blanks ++ q :: (specifier ++ [q])) = q :: (specifier ++ [q]) := by
    have hlast : q :: (specifier ++ [q]) = (q :: specifier) ++ [q] := rfl
    have h := Text.trim_append hblanks (v := []) nofun hspace hspace hlast
    rwa [List.append_nil] at h
  have hquoted : isQuoted (q :: (specifier ++ [q])) = true := by
    apply isQuoted_iff.2
    obtain ⟨c, cs, hcs⟩ := List.exists_cons_of_ne_nil (List.concat_ne_nil q specifier)
    exact ⟨q, c, cs, hq, congrArg (q :: ·) hcs, getLast?_quoted []⟩
  rw [splitSource, h]
  dsimp only
  rw [htrim, if_pos hquoted]
  simp

theorem splitSource_here (hq : q = '"' ∨ q = '\'')
    (hahead : '"' ∉ ahead ∧ '\'' ∉ ahead) (hspecifier : '"' ∉ specifier ∧ '\'' ∉ specifier)
    (h : ∀ names blanks, (∀ c ∈ blanks, Text.isSpace c = true) → blanks ≠ [] →
      ahead = names ++ ("from".toList ++ blanks) → HoldsFrom specifier) (p : Path) :
    splitSource p (ahead ++ q :: (specifier ++ [q])) = (ahead ++ q :: (specifier ++ [q]), .here) := by
  have hspace : Text.isSpace q = false := by rcases hq with rfl | rfl <;> decide
  rw [splitSource]
  split
  · rfl
  · next names source hcut =>
    obtain ⟨he, ⟨d, hd, hblank⟩, hholds⟩ := lastFrom_eq_some hcut
    obtain ⟨blanks, text, rfl, hblanks, hvisible⟩ := exists_blanks source
    have hlast : (names ++ ("from".toList ++ (blanks ++ text))).getLast? = some q := by
      rw [← he]
      exact getLast?_quoted ahead
    have hne : blanks ++ text ≠ [] := by
      intro hnil
      rw [hnil] at hd
      cases hd
    have htext : text ≠ [] := by
      rintro rfl
      rw [List.append_nil] at hne hlast
      rw [← List.append_assoc, List.getLast?_append_of_ne_nil _ hne] at hlast
      rw [hblanks q (List.mem_of_getLast? hlast)] at hspace
      cases hspace
    rw [← List.append_assoc, ← List.append_assoc, List.getLast?_append_of_ne_nil _ htext] at hlast
    obtain ⟨c, cs, rfl⟩ := List.exists_cons_of_ne_nil htext
    obtain ⟨front, hfront⟩ := List.getLast?_eq_some_iff.1 hlast
    have htrim := Text.trim_append hblanks (v := []) nofun (hvisible c rfl) hspace hfront
    rw [List.append_nil] at htrim
    have hglobal : (c :: cs == "global".toList) = false := by
      apply beq_false_of_ne
      intro hglobal
      rw [hglobal] at hlast
      rcases hq with rfl | rfl <;> cases hlast
    have hquoted : isQuoted (c :: cs) = false := by
      by_contra hquoted
      obtain ⟨q', c', cs', -, htext, hlast'⟩ := isQuoted_iff.1 (Bool.not_eq_false _ ▸ hquoted)
      obtain rfl : q' = q := Option.some.inj (hlast'.symm.trans hlast)
      obtain ⟨rfl, rfl⟩ := List.cons.inj htext
      have hq₁ : c ∉ ahead := by rcases hq with rfl | rfl <;> simp [hahead]
      have hq₂ : c ∉ specifier := by rcases hq with rfl | rfl <;> simp [hspecifier]
      rw [← List.append_assoc, ← List.append_assoc] at he
      obtain ⟨hcut, hrest⟩ := quoted_inj hq₁ hq₂ (List.cons_ne_nil c' cs') he.symm
      refine hholds ((h names blanks hblanks ?_ ?_).mono ?_)
      · rintro rfl
        cases hd
        rw [hspace] at hblank
        cases hblank
      · rw [← hcut, List.append_assoc]
      · rw [hrest]
        exact ⟨blanks ++ [c], [c], by simp⟩
    dsimp only
    rw [htrim, hquoted, hglobal]
    rfl

end Quoted

/-- The cut of a value is before the name of the file if that does not hold `from`. -/
theorem lastFrom_behind {before behind specifier : List Char} (hbefore : before ≠ [])
    (hbefores : ∀ c ∈ before, Text.isSpace c = true) (hbehind : behind ≠ [])
    (hbehinds : ∀ c ∈ behind, Text.isSpace c = true) (hq : q = '"' ∨ q = '\'')
    (hholds : ¬HoldsFrom specifier) (list : List Char) :
    lastFrom false (list ++ before ++ "from".toList ++ behind ++ q :: (specifier ++ [q])) =
      some (list ++ before, behind ++ q :: (specifier ++ [q])) := by
  have hspace : Text.isSpace q = false := by rcases hq with rfl | rfl <;> decide
  have hfrom : q ∉ "from".toList := by rcases hq with rfl | rfl <;> decide
  obtain ⟨d, behind, rfl⟩ := List.exists_cons_of_ne_nil hbehind
  obtain ⟨before', c, he⟩ := (List.eq_nil_or_concat before).resolve_left hbefore
  rw [List.concat_eq_append] at he
  subst he
  have hc := hbefores c (List.mem_append_right _ (List.mem_singleton_self c))
  have hnone : lastFrom false ("rom".toList ++ d :: (behind ++ q :: (specifier ++ [q]))) = none := by
    refine lastFrom_eq_none_iff.2 ⟨?_, by simp⟩
    rw [← List.cons_append, ← List.append_assoc, holdsFrom_append_cons hspace hfrom,
      holdsFrom_append_cons hspace hfrom]
    rintro (hrom | hspec | hnil)
    · rcases List.mem_append.1 hrom.mem with hf | hf
      · revert hf
        decide
      · cases hbehinds 'f' hf
    · exact hholds hspec
    · cases hnil.mem
  have hstarts := lastFrom_of_startsFrom (hbehinds d (List.mem_cons_self ..)) hnone
  have hcut := lastFrom_append (b := false) (u := list ++ before') hc hstarts
  simpa only [List.append_assoc, List.cons_append, List.nil_append] using hcut

/-- A name without escapes: a letter, and then letters, digits, dashes and underscores. -/
structure IsPlainName (name : List Char) : Prop where
  first : ∃ c ∈ name.head?, c.isAlpha = true
  all : ∀ c ∈ name, c.isAlphanum = true ∨ c = '-' ∨ c = '_'

instance (name : List Char) : Decidable (IsPlainName name) :=
  decidable_of_iff (name.head?.any Char.isAlpha = true ∧
    name.all (fun c => c.isAlphanum || c == '-' || c == '_') = true) (by
      rw [Option.any_eq_true, List.all_eq_true]
      simp only [Bool.or_eq_true, beq_iff_eq, or_assoc]
      exact ⟨fun h => ⟨h.1, h.2⟩, fun h => ⟨h.1, h.2⟩⟩)

/-- Names in order, with blanks or commas between them. -/
inductive Listed : List Char → List String → Prop where
  | last {name : List Char} (hname : IsPlainName name) : Listed name [String.ofList name]
  | cons {name gap cs : List Char} {names : List String} (hname : IsPlainName name)
      (hne : gap ≠ []) (hgap : ∀ c ∈ gap, Text.isSpace c = true ∨ c = ',')
      (rest : Listed cs names) : Listed (name ++ (gap ++ cs)) (String.ofList name :: names)

theorem isSpace_of_isAlphanum (h : c.isAlphanum = true) : Text.isSpace c = false := by
  have hcode : 48 ≤ c.toNat ∧ c.toNat ≤ 57 ∨ 65 ≤ c.toNat ∧ c.toNat ≤ 90 ∨
      97 ≤ c.toNat ∧ c.toNat ≤ 122 := by
    rw [← Identifier.isDigit_iff, ← Identifier.isUpper_iff, ← Identifier.isLower_iff]
    have hkinds : (c.isUpper || c.isLower || c.isDigit) = true := h
    simpa [or_comm, or_assoc, or_left_comm] using hkinds
  simp only [Text.isSpace, Bool.or_eq_false_iff, Bool.and_eq_false_iff, decide_eq_false_iff_not,
    beq_eq_false_iff_ne]
  omega

theorem tokensOf_append (hne : u ≠ []) (hu : ∀ c ∈ u, Text.isSpace c = true ∨ c = ',')
    (before cs : List Char) : tokensOf (before ++ (u ++ cs)) = tokensOf before ++ tokensOf cs := by
  have hseparator : ∀ c ∈ u, (Text.isSpace c || c == ',') = true := by
    intro c hc
    simpa using hu c hc
  obtain ⟨c, u, rfl⟩ := List.exists_cons_of_ne_nil hne
  obtain ⟨hc, hmore⟩ := List.forall_mem_cons.1 hseparator
  have hskip : tokensOf (u ++ cs) = tokensOf cs := by
    clear hne hu hseparator
    induction u with
    | nil => rfl
    | cons d u ih =>
      obtain ⟨hd, hmore⟩ := List.forall_mem_cons.1 hmore
      rw [← ih hmore, List.cons_append]
      simp [tokensOf, Text.runs, Text.splitWhere, hd]
  rw [← hskip, tokensOf, List.cons_append, Text.runs, Text.splitWhere_append_cons hc,
    List.filter_append, List.map_append]
  rfl

namespace IsPlainName

variable {name : List Char}

theorem isSpace (h : IsPlainName name) : ∀ c ∈ name, Text.isSpace c = false := by
  intro c hc
  rcases h.all c hc with hc | rfl | rfl
  · exact isSpace_of_isAlphanum hc
  · rfl
  · rfl

theorem isPlain (h : IsPlainName name) : ∀ c ∈ name, Stylesheet.isPlain c = true := by
  intro c hc
  have hall := h.all c hc
  by_contra hplain
  simp only [Stylesheet.isPlain, decide_not, Bool.not_eq_true', Bool.not_eq_false,
    decide_eq_true_eq, List.mem_cons, List.not_mem_nil, or_false] at hplain
  rcases hplain with rfl | rfl | rfl | rfl | rfl | rfl | rfl <;> revert hall <;> decide

theorem isNameChar (h : IsPlainName name) : ∀ c ∈ name, Selector.isNameChar c = true := by
  intro c hc
  rcases h.all c hc with hc | rfl | rfl
  · simp [Selector.isNameChar, hc]
  · rfl
  · rfl

theorem exists_cons (h : IsPlainName name) :
    ∃ c cs, name = c :: cs ∧ c.isAlpha = true := by
  obtain ⟨c, hc, halpha⟩ := h.first
  obtain ⟨cs, rfl⟩ := List.head?_eq_some_iff.1 hc
  exact ⟨c, cs, rfl, halpha⟩

theorem isClass (h : IsPlainName name) : Selector.IsClass name := by
  refine Selector.isClass_iff.2 ⟨Selector.name_of_isNameChar h.isNameChar, ?_⟩
  obtain ⟨c, cs, rfl, hc⟩ := h.exists_cons
  have hdigit : c.isDigit = false := by
    by_contra hdigit
    have hlow := Identifier.isDigit_iff.1 (by simpa using hdigit)
    have hcode : 65 ≤ c.toNat := by
      have hletter : (c.isUpper || c.isLower) = true := hc
      rw [Bool.or_eq_true, Identifier.isUpper_iff, Identifier.isLower_iff] at hletter
      omega
    omega
  have hdash : c ≠ '-' := by
    rintro rfl
    cases hc
  rw [Selector.isClassName.eq_def]
  split <;> simp_all

theorem isPlain_selector (h : IsPlainName name) :
    ∀ c ∈ '.' :: name ++ [' '], Stylesheet.isPlain c = true := by
  intro c hc
  rcases List.mem_append.1 hc with hc | hc
  · rcases List.mem_cons.1 hc with rfl | hc
    · rfl
    · exact h.isPlain c hc
  · rw [List.mem_singleton.1 hc]
    rfl

theorem trim_selector (h : IsPlainName name) {blanks : List Char}
    (hblanks : ∀ c ∈ blanks, Text.isSpace c = true) :
    Text.trim (blanks ++ Stylesheet.textOf (('.' :: name ++ [' ']).map .other)) = '.' :: name := by
  rw [Stylesheet.textOf_map_other]
  apply Text.trim_unspaced hblanks Text.isSpace_blank
  exact List.forall_mem_cons.2 ⟨rfl, h.isSpace⟩

theorem tokensOf (h : IsPlainName name) : tokensOf name = [String.ofList name] := by
  obtain ⟨c, cs, rfl, -⟩ := h.exists_cons
  have hall : ∀ d ∈ c :: cs, (Text.isSpace d || d == ',') = false := by
    intro d hd
    have hcomma : d ≠ ',' := by
      rintro rfl
      have hall := h.all _ hd
      revert hall
      decide
    simp [h.isSpace d hd, hcomma]
  rw [Composition.tokensOf, Text.runs, Text.splitWhere_of_forall hall]
  rfl

end IsPlainName

namespace Listed

variable {texts : List String}

theorem tokensOf (h : Listed cs texts) : tokensOf cs = texts := by
  induction h with
  | last hname => exact hname.tokensOf
  | cons hname hne hgap _ ih =>
    rw [tokensOf_append hne hgap, hname.tokensOf, ih]
    rfl

theorem ends (h : Listed cs texts) : ∃ c d rest front, cs = c :: rest ∧ cs = front ++ [d] ∧
    Text.isSpace c = false ∧ Text.isSpace d = false := by
  induction h with
  | @last name hname =>
    obtain ⟨c, rest, he, -⟩ := hname.exists_cons
    have hne : name ≠ [] := he ▸ List.cons_ne_nil c rest
    obtain ⟨front, d, he'⟩ := (List.eq_nil_or_concat name).resolve_left hne
    rw [List.concat_eq_append] at he'
    refine ⟨c, d, rest, front, he, he', hname.isSpace c ?_, hname.isSpace d ?_⟩
    · rw [he]
      exact List.mem_cons_self ..
    · rw [he']
      exact List.mem_append_right _ (List.mem_singleton_self d)
  | @cons name gap cs _ hname _ _ _ ih =>
    obtain ⟨c, rest, rfl, -⟩ := hname.exists_cons
    obtain ⟨-, d, -, front, -, rfl, -, hd⟩ := ih
    have hc := hname.isSpace c (List.mem_cons_self ..)
    exact ⟨c, d, _, c :: rest ++ (gap ++ front), rfl, by simp, hc, hd⟩

theorem isPlain (h : Listed cs texts) : ∀ c ∈ cs, Stylesheet.isPlain c = true := by
  induction h with
  | last hname => exact hname.isPlain
  | cons hname _ hgap _ ih =>
    intro c hc
    rcases List.mem_append.1 hc with hc | hc
    · exact hname.isPlain c hc
    · rcases List.mem_append.1 hc with hc | hc
      · rcases hgap c hc with hc | rfl
        · exact Stylesheet.isPlain_of_isSpace hc
        · rfl
      · exact ih c hc

end Listed

end Composition

namespace Stylesheet

open CssModules.Composition

variable {q : Char} {x list before behind specifier : List Char} {names : List String}

def fileRule (x list before behind : List Char) (q : Char) (specifier : List Char) : List Char :=
  '.' :: x ++ " \x7b composes: ".toList ++ list ++ before ++ "from".toList ++ behind ++
    q :: specifier ++ q :: "; \x7d".toList

theorem isPlain_ahead (hlist : Listed list names) (hbefore : ∀ c ∈ before, Text.isSpace c = true)
    (hbehind : ∀ c ∈ behind, Text.isSpace c = true) :
    ∀ c ∈ list ++ before ++ "from".toList ++ behind, isPlain c = true := by
  simp only [List.mem_append]
  rintro c (((hc | hc) | hc) | hc)
  · exact hlist.isPlain c hc
  · exact isPlain_of_isSpace (hbefore c hc)
  · exact List.all_eq_true.1 rfl c hc
  · exact isPlain_of_isSpace (hbehind c hc)

theorem isPlain_property : ∀ c ∈ " composes: ".toList, isPlain c = true := List.all_eq_true.1 rfl

theorem brings_rule {value v more front blanks : List Char} {c d : Char} {ts ending : List Token}
    (p : Path) (found : Stylesheet) (hblanks : ∀ c ∈ blanks, Text.isSpace c = true)
    (hx : IsPlainName x) (hts : ∀ t ∈ ts, t.isDelimiter = false)
    (htext : textOf ts = " composes: ".toList ++ (value ++ v))
    (hv : ∀ c ∈ v, Text.isSpace c = true) (hfirst : value = c :: more)
    (hlast : value = front ++ [d]) (hc : Text.isSpace c = false) (hd : Text.isSpace d = false)
    (hending : ending = [.closing] ∨ ending = [.semicolon, .other ' ', .closing])
    (hnames : tokensOf (splitSource p value).1 ≠ []) :
    Brings p (('.' :: x ++ [' ']).map .other ++ ([.opening] ++ (ts ++ ending)))
      ⟨found, [], blanks⟩ ⟨⟨addNames found.localNames [String.ofList x], found.compositions ++
        [⟨String.ofList x, tokensOf (splitSource p value).1, (splitSource p value).2⟩]⟩,
        [], []⟩ := by
  have htrim : Text.trim (' ' :: value) = value := Text.trim_space_cons hfirst hlast hc hd
  have hvalue : Text.trim (textOf ts) = "composes:".toList ++ ' ' :: value := by
    rw [htext, trim_composes hd hv hlast]
  have hbrings : Brings p _ ⟨found, [], blanks⟩ _ :=
    brings_composing isDelimiter_map_other hts (hx.trim_selector hblanks) hx.isClass hvalue
      (by rwa [htrim]) hending
  rwa [htrim] at hbrings

theorem parse_fileRule_eq (p : Path) (hx : IsPlainName x) (hlist : Listed list names)
    (hbefore : ∀ c ∈ before, Text.isSpace c = true) (hbehind : ∀ c ∈ behind, Text.isSpace c = true)
    (hq : q = '"' ∨ q = '\'') (hspecifier : ∀ c ∈ specifier, c ≠ q ∧ c ≠ '\\' ∧ c ≠ '\n')
    {value : List Char}
    (hvalue : value = list ++ before ++ "from".toList ++ behind ++ q :: (specifier ++ [q]))
    (hnames : tokensOf (splitSource p value).1 ≠ []) :
    parse p (String.ofList (fileRule x list before behind q specifier)) =
      .ok ⟨[String.ofList x],
        [⟨String.ofList x, tokensOf (splitSource p value).1, (splitSource p value).2⟩]⟩ := by
  have hahead : ∀ c ∈ " composes: ".toList ++ (list ++ before ++ "from".toList ++ behind),
      isPlain c = true := by
    intro c hc
    rcases List.mem_append.1 hc with hc | hc
    · exact isPlain_property c hc
    · exact isPlain_ahead hlist hbefore hbehind c hc
  have hreads : Reads (fileRule x list before behind q specifier)
      (('.' :: x ++ [' ']).map .other ++ ([.opening] ++
        (((" composes: ".toList ++ (list ++ before ++ "from".toList ++ behind)).map .other ++
          [.string q specifier]) ++ [.semicolon, .other ' ', .closing]))) := by
    have hend : Reads "; \x7d".toList [.semicolon, .other ' ', .closing] :=
      .semicolon (.other (by decide) nofun (.closing .nil))
    have hstring := Reads.string hq (stringBody_of_forall hspecifier) hend
    have hrule := (readsTo_plain hx.isPlain_selector _).finish
      (.opening ((readsTo_plain hahead _).finish hstring))
    simpa [fileRule] using hrule
  have hspace : Text.isSpace q = false := by rcases hq with rfl | rfl <;> decide
  obtain ⟨c, -, rest, -, hfirst, -, hc, -⟩ := hlist.ends
  obtain ⟨more, hmore⟩ : ∃ more, value = c :: more := by
    rw [hvalue, hfirst]
    exact ⟨_, rfl⟩
  obtain ⟨front, hlast⟩ : ∃ front, value = front ++ [q] := by
    apply List.getLast?_eq_some_iff.1
    rw [hvalue]
    exact getLast?_quoted _
  have htext : textOf ((" composes: ".toList ++ (list ++ before ++ "from".toList ++ behind)).map
      .other ++ [.string q specifier]) = " composes: ".toList ++ (value ++ []) := by
    rw [textOf_append, textOf_map_other, hvalue]
    simp [textOf, Token.chars]
  have hbody : ∀ t ∈ (" composes: ".toList ++ (list ++ before ++ "from".toList ++ behind)).map
      Token.other ++ [.string q specifier], t.isDelimiter = false := by
    intro t ht
    rcases List.mem_append.1 ht with ht | ht
    · exact isDelimiter_map_other t ht
    · rw [List.mem_singleton.1 ht]
      rfl
  have hbrings : Brings p _ ⟨.empty, [], []⟩ _ :=
    brings_rule p .empty (by simp) hx hbody htext (by simp) hmore hlast hc hspace (.inr rfl) hnames
  exact parse_of_brings (by rwa [String.toList_ofList]) hbrings

/-- A rule for a class `x` that composes from a file takes the names listed from the file between
the quotes, exactly if a blank stands behind `from` and `from` does not stand between two blanks in
the name of the file. Otherwise `x` composes in its own stylesheet. -/
theorem parse_fileRule (p : Path) (hx : IsPlainName x) (hlist : Listed list names)
    (hbefore : before ≠ [] ∧ ∀ c ∈ before, Text.isSpace c = true)
    (hbehind : ∀ c ∈ behind, Text.isSpace c = true) (hq : q = '"' ∨ q = '\'')
    (hspecifier : ∀ c ∈ specifier, c ≠ '"' ∧ c ≠ '\'' ∧ c ≠ '\\' ∧ c ≠ '\n') :
    (behind ≠ [] → ¬HoldsFrom specifier →
      parse p (String.ofList (fileRule x list before behind q specifier)) =
        .ok ⟨[String.ofList x], [⟨String.ofList x, names, .file (String.ofList specifier)
          (((p.parent?).getD ⟨""⟩).join ⟨String.ofList specifier⟩).normalize⟩]⟩) ∧
      (behind = [] ∨ HoldsFrom specifier →
        parse p (String.ofList (fileRule x list before behind q specifier)) =
          .ok ⟨[String.ofList x], [⟨String.ofList x,
            names ++ tokensOf ("from".toList ++ behind ++ q :: specifier ++ [q]), .here⟩]⟩) := by
  have hquote : ∀ c ∈ specifier, c ≠ q ∧ c ≠ '\\' ∧ c ≠ '\n' := by
    intro c hc
    obtain ⟨hdouble, hsingle, hrest⟩ := hspecifier c hc
    rcases hq with rfl | rfl
    · exact ⟨hdouble, hrest⟩
    · exact ⟨hsingle, hrest⟩
  have hnames : names ≠ [] := by cases hlist <;> exact List.cons_ne_nil _ _
  obtain ⟨-, d, -, front, -, hlast, -, hd⟩ := hlist.ends
  constructor
  · intro hne hholds
    have hcut := lastFrom_behind hbefore.1 hbefore.2 hne hbehind hq hholds list
    have hsplit := splitSource_file hq hbehind hcut p
    rw [Text.trimEnd_append hbefore.2, hlast, Text.trimEnd_concat hd, ← hlast] at hsplit
    have h := parse_fileRule_eq p hx hlist hbefore.2 hbehind hq hquote rfl
    rw [hsplit, hlist.tokensOf] at h
    exact h hnames
  · intro hnot
    have hahead := isPlain_ahead hlist hbefore.2 hbehind
    have hcut : ∀ names blanks, (∀ c ∈ blanks, Text.isSpace c = true) → blanks ≠ [] →
        list ++ before ++ "from".toList ++ behind = names ++ ("from".toList ++ blanks) →
          HoldsFrom specifier := by
      rintro names blanks hblanks hne he
      apply hnot.resolve_left
      rintro rfl
      have hlast := congrArg List.getLast? he
      rw [← List.append_assoc, List.append_nil, List.getLast?_append_of_ne_nil _ (by decide),
        List.getLast?_append_of_ne_nil _ hne] at hlast
      cases hblanks 'm' (List.mem_of_getLast? hlast.symm)
    have hsplit := splitSource_here hq
      ⟨fun h => absurd (hahead _ h) (by decide), fun h => absurd (hahead _ h) (by decide)⟩
      ⟨fun h => (hspecifier _ h).1 rfl, fun h => (hspecifier _ h).2.1 rfl⟩ hcut p
    have htokens : tokensOf (list ++ before ++ "from".toList ++ behind ++ q :: (specifier ++ [q])) =
        names ++ tokensOf ("from".toList ++ behind ++ q :: specifier ++ [q]) := by
      rw [← hlist.tokensOf, ← tokensOf_append hbefore.1 fun c hc => .inl (hbefore.2 c hc)]
      simp
    have h := parse_fileRule_eq p hx hlist hbefore.2 hbehind hq hquote rfl
    rw [hsplit, htokens] at h
    exact h (List.append_ne_nil_of_left_ne_nil hnames _)

theorem parse_fileRule_fromAsName :
    ¬HoldsFrom "../\x7bfrom;\x7d/*.css".toList ∧
      parse ⟨"/p/src/b.css"⟩ (String.ofList (fileRule "x".toList "a from,b-2".toList [' ', '\n']
          ['\t'] '\'' "../\x7bfrom;\x7d/*.css".toList)) =
        .ok ⟨["x"], [⟨"x", ["a", "from", "b-2"],
          .file "../\x7bfrom;\x7d/*.css" ⟨"/p/\x7bfrom;\x7d/*.css"⟩⟩]⟩ := by
  have hlist : Listed (['a'] ++ ([' '] ++ ("from".toList ++ ([','] ++ "b-2".toList))))
      ["a", "from", "b-2"] :=
    .cons (by decide) (List.cons_ne_nil _ _) (by simp [Text.isSpace])
      (.cons (by decide) (List.cons_ne_nil _ _) (by simp) (.last (by decide)))
  have hholds : ¬HoldsFrom "../\x7bfrom;\x7d/*.css".toList := by decide
  have hbefore : [' ', '\n'] ≠ [] ∧ ∀ c ∈ [' ', '\n'], Text.isSpace c = true :=
    ⟨List.cons_ne_nil _ _, List.all_eq_true.1 rfl⟩
  have hbehind : ∀ c ∈ ['\t'], Text.isSpace c = true := List.all_eq_true.1 rfl
  have hparse := (parse_fileRule (x := ['x']) ⟨"/p/src/b.css"⟩ (by decide) hlist hbefore hbehind
    (.inr rfl) (by simp)).1 (List.cons_ne_nil '\t' []) hholds
  exact ⟨hholds, hparse⟩

theorem parse_fileRule_fromInDirectory :
    parse ⟨"/project/src/b.css"⟩
        ".x \x7b composes: y from \"./my from dir/a.css\"; \x7d" =
      .ok ⟨["x"], [⟨"x", ["y", "from", "\"./my", "from", "dir/a.css\""], .here⟩]⟩ := by
  decide +kernel

end Stylesheet

end CssModules
