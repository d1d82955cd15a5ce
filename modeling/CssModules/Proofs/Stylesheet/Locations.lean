import CssModules.Proofs.Stylesheet.Acceptance

namespace CssModules

namespace Stylesheet

/-- The place of the character behind a text: its line, and its place in that. -/
def location (before : List Char) : Position :=
  ⟨1 + before.count '\n', 1 + (before.reverse.takeWhile (· != '\n')).length⟩

/-- The place that the scanner takes the character behind some tokens to have. -/
def placeBehind (ts : List Token) : Position := location (ts.flatMap Token.counted)

/-- What is wrong with a declaration behind some tokens. -/
inductive Refused (p : Path) (ts : List Token) (declaration : List Char) : SyntaxFault → Prop where
  | misplaced {property value : List Char}
      (hcut : Text.trim declaration = property ++ ':' :: value) (hproperty : ':' ∉ property)
      (hcomposes : (Text.trim property).map Char.toLower ∈
        ["composes".toList, "compose-with".toList])
      (hrule : ¬InClassRule ts) : Refused p ts declaration .misplacedComposition
  | empty {property value : List Char}
      (hcut : Text.trim declaration = property ++ ':' :: value) (hproperty : ':' ∉ property)
      (hcomposes : (Text.trim property).map Char.toLower ∈
        ["composes".toList, "compose-with".toList])
      (hrule : InClassRule ts)
      (hnames : Composition.tokensOf (Composition.splitSource p (Text.trim value)).1 = []) :
      Refused p ts declaration .emptyComposition

def AllFit (p : Path) (ts : List Token) : Prop :=
  ∀ before t after, ts = before ++ t :: after → Fits p before t

/-- What is wrong with a text that stands behind some tokens. -/
inductive FaultAt (p : Path) (ts : List Token) : List Char → SyntaxFault → Prop where
  /-- It begins with a comment or string that is not closed. -/
  | unclosed {text : List Char} {fault : SyntaxFault} (hopen : Unclosed text fault) :
      FaultAt p ts text fault
  /-- It begins with a brace that closes no block. -/
  | close {rest : List Char} (hts : Balanced ts)
      (hallowed : ∀ before stretch, ts = before ++ stretch → Delimited before stretch →
        Allowed p ts (textOf stretch)) :
      FaultAt p ts ('\x7d' :: rest) .unexpectedClose
  /-- It begins with the brace of a block that is not closed, while all blocks in that are. -/
  | block {rest : List Char} {inner : List Token} (hrest : Reads rest inner)
      (hinner : Balanced inner) (hfit : AllFit p (ts ++ .opening :: inner)) :
      FaultAt p ts ('\x7b' :: rest) .unclosedBlock
  /-- It begins with a declaration that may not stand there: what is before it since the last
  delimiter is blank, and it goes on to the next one. -/
  | declaration {before blanks more : List Token} {t : Token} {text after : List Char} {stop : Char}
      {fault : SyntaxFault} (hts : ts = before ++ blanks)
      (hstretch : Delimited before (blanks ++ t :: more))
      (hblanks : ∀ b ∈ blanks, b.isVisible = false) (ht : t.isVisible = true)
      (htext : ReadsTo (stop :: after) text (t :: more)) (hstop : stop = ';' ∨ stop = '\x7d')
      (hrefused : Refused p (ts ++ t :: more) (textOf (blanks ++ t :: more)) fault) :
      FaultAt p ts text fault

variable {p : Path} {q : Position} {ts more inner outer before blanks stretch : List Token}
  {t : Token} {r r' : Reading} {cs rest : List Char} {places : List Position}
  {fault : SyntaxFault}

theorem past_beside (cs : List Char) : (Position.past ⟨1, 0⟩ cs).beside = location cs := by
  induction cs using List.reverseRecOn with
  | nil => rfl
  | append_singleton cs c ih =>
    have hline := congrArg Position.line ih
    have hcolumn := congrArg Position.column ih
    simp only [Position.beside, location] at hline hcolumn
    rw [Position.past_append, Position.past, List.foldl_cons, List.foldl_nil]
    by_cases hc : c = '\n'
    · simp [hc, Position.next, Position.beside, location]
      omega
    · simp [hc, Position.next, Position.beside, location]
      omega

theorem allowed_iff {declaration : List Char} :
    Allowed p ts declaration ↔ ∀ fault, ¬Refused p ts declaration fault := by
  constructor
  · intro h fault hrefused
    cases hrefused with
    | misplaced hcut hproperty hcomposes hrule =>
      exact hrule (h _ _ hcut hproperty hcomposes).1
    | empty hcut hproperty hcomposes _ hnames =>
      exact (h _ _ hcut hproperty hcomposes).2 hnames
  · intro h property value hcut hproperty hcomposes
    by_cases hrule : InClassRule ts
    · exact ⟨hrule, fun hnames => h _ (.empty hcut hproperty hcomposes hrule hnames)⟩
    · exact absurd (.misplaced hcut hproperty hcomposes hrule) (h _)

theorem Refused.exists_visible {declaration : List Char} (h : Refused p ts declaration fault) :
    ∃ c ∈ declaration, Text.isSpace c = false := by
  by_contra hblank
  have hall : ∀ c ∈ declaration, Text.isSpace c = true := by simpa using hblank
  have htrim : Text.trim declaration = [] := by
    rw [Text.trim, Text.trimStart, List.dropWhile_eq_nil_iff.2 hall]
    rfl
  cases h with
  | misplaced hcut | empty hcut =>
    rw [htrim] at hcut
    simp at hcut

theorem allFit_nil : AllFit p [] := fun before t after h => by simp at h

theorem AllFit.snoc (h : AllFit p ts) (ht : Fits p ts t) : AllFit p (ts ++ [t]) := by
  intro before s after he
  rcases List.eq_nil_or_concat after with rfl | ⟨after, u, rfl⟩
  · obtain ⟨rfl, hs⟩ := List.append_inj' he rfl
    cases hs
    exact ht
  · rw [List.concat_eq_append, ← List.cons_append, ← List.append_assoc] at he
    exact h before s after (List.append_inj' he rfl).1

theorem AllFit.of_append (h : AllFit p (ts ++ more)) : AllFit p ts := by
  intro before t after he
  refine h before t (after ++ more) ?_
  rw [he, List.append_assoc, List.cons_append]

theorem fits_of_not_delimiter (ht : t.isDelimiter = false) : Fits p ts t where
  closes h := by
    rw [h] at ht
    cases ht
  ends h := by rcases h with rfl | rfl <;> cases ht

theorem AllFit.append_stretch (h : AllFit p ts) (hmore : ∀ t ∈ more, t.isDelimiter = false) :
    AllFit p (ts ++ more) := by
  induction more using List.reverseRecOn with
  | nil => rwa [List.append_nil]
  | append_singleton more t ih =>
    rw [← List.append_assoc]
    refine (ih fun s hs => hmore s (List.mem_append_left _ hs)).snoc (fits_of_not_delimiter ?_)
    exact hmore t (List.mem_append_right _ (List.mem_singleton_self t))

theorem allFit_or_exists (p : Path) (ts : List Token) :
    AllFit p ts ∨ ∃ before t after, ts = before ++ t :: after ∧ AllFit p before ∧
      ¬Fits p before t := by
  induction ts using List.reverseRecOn with
  | nil => exact .inl allFit_nil
  | append_singleton ts t ih =>
    rcases ih with hfit | ⟨before, s, after, rfl, hfit, hs⟩
    · by_cases ht : Fits p ts t
      · exact .inl (hfit.snoc ht)
      · exact .inr ⟨ts, t, [], rfl, hfit, ht⟩
    · exact .inr ⟨before, s, after ++ [t], by simp, hfit, hs⟩

/-- The places of the braces of the blocks that are open behind some tokens, innermost first. -/
inductive Standing : List Token → List Position → Prop where
  | nil {ts : List Token} (h : Balanced ts) : Standing ts []
  | cons {outer inner : List Token} {places : List Position} (hinner : Balanced inner)
      (rest : Standing outer places) :
      Standing (outer ++ .opening :: inner) (placeBehind outer :: places)

namespace Standing

theorem append (h : Standing ts places) (hmore : Balanced more) : Standing (ts ++ more) places := by
  cases h with
  | nil h => exact .nil (h.append hmore)
  | cons hinner rest =>
    rw [List.append_assoc, List.cons_append]
    exact .cons (hinner.append hmore) rest

theorem opening (h : Standing ts places) :
    Standing (ts ++ [.opening]) (placeBehind ts :: places) := .cons .nil h

theorem closing {place : Position} (h : Standing ts (place :: places)) :
    Standing (ts ++ [.closing]) places := by
  cases h with
  | cons hinner rest =>
    rw [List.append_assoc]
    exact rest.append hinner.block

theorem exists_block {place : Position} (h : Standing ts (place :: places)) :
    ∃ outer inner, ts = outer ++ .opening :: inner ∧ Balanced inner ∧ place = placeBehind outer := by
  cases h with
  | cons hinner rest => exact ⟨_, _, rfl, hinner, rfl⟩

theorem of_block (h : Standing (outer ++ .opening :: inner) places) (hinner : Balanced inner) :
    places.head? = some (placeBehind outer) := by
  generalize hwhole : outer ++ .opening :: inner = whole at h
  cases h with
  | nil hbalanced => exact absurd hwhole.symm (hbalanced.ne_block hinner)
  | cons hinner' _ =>
    obtain ⟨rfl, -⟩ := hinner.block_unique hinner' hwhole
    rfl

end Standing

def startOf (before : List Token) : List Token → Option Position
  | [] => none
  | t :: ts => if t.isVisible then some (placeBehind before) else startOf (before ++ [t]) ts

theorem startOf_snoc : startOf before (stretch ++ [t]) =
    if (startOf before stretch).isNone && t.isVisible then some (placeBehind (before ++ stretch))
    else startOf before stretch := by
  induction stretch generalizing before with
  | nil => simp [startOf]
  | cons s stretch ih =>
    rw [List.cons_append, startOf, startOf, ih]
    by_cases hs : s.isVisible = true <;> simp [hs]

theorem startOf_eq (hblanks : ∀ b ∈ blanks, b.isVisible = false) (ht : t.isVisible = true) :
    startOf before (blanks ++ t :: more) = some (placeBehind (before ++ blanks)) := by
  induction blanks generalizing before with
  | nil => simp [startOf, ht]
  | cons b blanks ih =>
    obtain ⟨hb, hblanks⟩ := List.forall_mem_cons.1 hblanks
    rw [List.cons_append, startOf, hb, if_neg (by decide), ih hblanks, List.append_assoc]
    rfl

namespace Reading

theorem places_openBlock (r : Reading) (start : Position) :
    (r.openBlock start).blocks.map Block.start = start :: r.blocks.map Block.start ∧
      (r.openBlock start).textStart = none := by
  rw [openBlock]
  split <;> exact ⟨rfl, rfl⟩

theorem textStart_declare (h : r.declare p = .ok r') : r'.textStart = none := by
  rw [declare] at h
  split at h
  · cases h
    rfl
  · split at h
    · cases h
      rfl
    · split at h
      · dsimp only at h
        split at h
        · cases h
        · cases h
          rfl
      · cases h

/-- A reading that has got behind some tokens and knows where they stand. -/
structure Located (r : Reading) (before stretch : List Token) : Prop extends
    r.After before stretch where
  standing : Standing (before ++ stretch) (r.blocks.map Block.start)
  textStart_eq : r.textStart = startOf before stretch

theorem located_initial : initial.Located [] [] where
  toAfter := after_initial
  standing := .nil .nil
  textStart_eq := rfl

theorem After.located (h : r.After before stretch)
    (hstanding : Standing (before ++ stretch) (r.blocks.map Block.start))
    (hend : ∀ s ∈ (before ++ stretch).getLast?, s.isDelimiter = true) (hstart : r.textStart = none) :
    r.Located before stretch where
  toAfter := h
  standing := hstanding
  textStart_eq := by
    have hdelimited : Delimited (before ++ stretch) [] := ⟨hend, nofun⟩
    obtain ⟨-, rfl⟩ := h.delimited.unique hdelimited (List.append_nil _).symm
    exact hstart

theorem Located.delimiter (h : r.Located before stretch) (ht : t.isDelimiter = true)
    (hr : (t.lexemes (Position.past ⟨1, 0⟩ ((before ++ stretch).flatMap Token.counted))).foldlM
      (Reading.step p) r = .ok r') :
    Standing (before ++ stretch ++ [t]) (r'.blocks.map Block.start) ∧ r'.textStart = none := by
  cases t with
  | comment | string | pair | other => cases ht
  | opening =>
    cases hr
    rw [past_beside]
    obtain ⟨hplaces, hstart⟩ := places_openBlock r (placeBehind (before ++ stretch))
    exact ⟨hplaces ▸ h.standing.opening, hstart⟩
  | semicolon =>
    rw [Token.lexemes, foldlM_singleton] at hr
    rw [(declare_spec hr).1]
    exact ⟨h.standing.append (.singleton (by decide) (by decide)), textStart_declare hr⟩
  | closing =>
    rw [Token.lexemes, foldlM_singleton, step_closing_eq_ok_iff] at hr
    obtain ⟨declared, b, blocks, hdeclared, hblocks, rfl⟩ := hr
    have hstanding := h.standing
    rw [← (declare_spec hdeclared).1, hblocks] at hstanding
    have hstart := textStart_declare hdeclared
    exact ⟨hstanding.closing, hstart⟩

theorem Located.step (h : r.Located before stretch)
    (hr : (t.lexemes (Position.past ⟨1, 0⟩ ((before ++ stretch).flatMap Token.counted))).foldlM
      (Reading.step p) r = .ok r') :
    ∃ before' stretch', before' ++ stretch' = before ++ stretch ++ [t] ∧
      r'.Located before' stretch' := by
  obtain ⟨before', stretch', he, h'⟩ := h.toAfter.step hr
  refine ⟨before', stretch', he, ?_⟩
  by_cases hdelimiter : t.isDelimiter = true
  · obtain ⟨hstanding, hstart⟩ := h.delimiter hdelimiter hr
    rw [← he] at hstanding
    apply h'.located hstanding _ hstart
    intro s hs
    rw [he, List.getLast?_concat] at hs
    cases hs
    exact hdelimiter
  · have hplain : t.isDelimiter = false := by simpa using hdelimiter
    rw [List.append_assoc] at he
    obtain ⟨rfl, rfl⟩ := h'.delimited.unique (h.delimited.snoc hplain) he
    cases (foldlM_stretch p _ r hplain).symm.trans hr
    constructor
    · exact h'
    · rw [← List.append_assoc]
      apply h.standing.append
      apply Balanced.singleton <;> rintro rfl <;> cases hplain
    · rw [startOf_snoc, ← h.textStart_eq, past_beside]
      rfl

theorem exists_located (h : AllFit p ts) :
    ∃ r before stretch, before ++ stretch = ts ∧
      (lexemesOf ⟨1, 0⟩ ts).foldlM (Reading.step p) initial = .ok r ∧ r.Located before stretch := by
  induction ts using List.reverseRecOn with
  | nil => exact ⟨initial, [], [], rfl, rfl, located_initial⟩
  | append_singleton ts t ih =>
    obtain ⟨r, before, stretch, rfl, hr, hlocated⟩ := ih h.of_append
    have hfits : Fits p (before ++ stretch) t := h _ t [] rfl
    obtain ⟨r', hr'⟩ := (hlocated.toAfter.step_isOk_iff
      (Position.past ⟨1, 0⟩ ((before ++ stretch).flatMap Token.counted))).2 hfits
    obtain ⟨before', stretch', he, hlocated'⟩ := hlocated.step hr'
    refine ⟨r', before', stretch', he, ?_, hlocated'⟩
    rw [lexemesOf_append, List.foldlM_append, hr, lexemesOf, lexemesOf, List.append_nil]
    exact hr'

theorem After.declare_error (h : r.After before stretch)
    (hrefused : Refused p (before ++ stretch) (textOf stretch) fault) :
    r.declare p = .error (r.textStart.getD ⟨1, 1⟩, fault) := by
  rw [declare, h.text_eq]
  cases hrefused with
  | misplaced hcut hproperty hcomposes hrule =>
    rw [h.opened.inClassRule_iff] at hrule
    rw [splitColon_eq_some_iff.2 ⟨hcut, hproperty⟩]
    simp only [isComposing_iff.2 hcomposes, Bool.not_true, Bool.false_eq_true, if_false]
    split
    · next hblocks => exact absurd ⟨_, by rw [hblocks]; rfl, rfl, rfl⟩ hrule
    · rfl
  | empty hcut hproperty hcomposes hrule hnames =>
    rw [h.opened.inClassRule_iff] at hrule
    rw [splitColon_eq_some_iff.2 ⟨hcut, hproperty⟩]
    simp only [isComposing_iff.2 hcomposes, Bool.not_true, Bool.false_eq_true, if_false, hnames]
    split
    · rfl
    · next hblocks =>
      obtain ⟨⟨kind, soleClass, start⟩, hmem, rfl, hsole⟩ := hrule
      obtain ⟨name, rfl⟩ := Option.isSome_iff_exists.1 hsole
      obtain ⟨around, he⟩ := List.head?_eq_some_iff.1 hmem
      exact absurd he (hblocks name start around)

end Reading

theorem ofLexemes_error {l : Lexeme} {ls : List Lexeme} {e : Position × SyntaxFault}
    (hr : (lexemesOf ⟨1, 0⟩ ts).foldlM (Reading.step p) .initial = .ok r)
    (hl : r.step p l = .error e) : ofLexemes p (lexemesOf ⟨1, 0⟩ ts ++ l :: ls) = .error e := by
  rw [ofLexemes, List.foldlM_append, hr]
  change (r.step p l >>= _) >>= _ = _
  rw [hl]
  rfl

/-- A fault is reported, at the place where it is. -/
theorem FaultAt.ofLexemes_eq {text : List Char} (h : FaultAt p ts text fault)
    (hts : ReadsTo text cs ts) (hfit : AllFit p ts) :
    ofLexemes p (Lexeme.ofText cs) = .error (placeBehind ts, fault) := by
  rw [Lexeme.ofText_eq]
  cases h with
  | unclosed hopen =>
    obtain ⟨r, before, stretch, rfl, hr, -⟩ := Reading.exists_located hfit
    obtain ⟨ls, hls⟩ := Lexeme.lexemes_unclosed hopen
      (Position.past ⟨1, 0⟩ ((before ++ stretch).flatMap Token.counted))
    rw [Lexeme.lexemes_readsTo hts, hls, past_beside]
    exact ofLexemes_error hr rfl
  | close hbalanced hallowed =>
    obtain ⟨r, before, stretch, rfl, hr, hlocated⟩ := Reading.exists_located hfit
    have hblocks : r.blocks = [] := by
      have hcount := hlocated.opened.count_eq
      rw [hbalanced.closed] at hcount
      exact List.eq_nil_of_length_eq_zero (by omega)
    obtain ⟨r', hr'⟩ := hlocated.toAfter.declare_isOk_iff.2
      (hallowed before stretch rfl hlocated.delimited)
    have hstep (start : Position) :
        r.step p (.closing start) = .error (start, .unexpectedClose) := by
      rw [← (Reading.declare_spec hr').1] at hblocks
      simp only [Reading.step, hr', bind, Except.bind, hblocks]
    rw [Lexeme.lexemes_readsTo hts, Lexeme.lexemes_begins .closing, Token.lexemes, past_beside]
    exact ofLexemes_error hr (hstep _)
  | block hrest hinner hall =>
    obtain ⟨r, before, stretch, he, hr, hlocated⟩ := Reading.exists_located hall
    have hstanding := hlocated.standing
    rw [he] at hstanding
    have hplace := hstanding.of_block hinner
    obtain ⟨places, hplaces⟩ := List.head?_eq_some_iff.1 hplace
    obtain ⟨b, blocks, hblocks, hstart, -⟩ := List.map_eq_cons_iff.1 hplaces
    rw [Lexeme.lexemes_reads (hts.finish (.opening hrest)), ofLexemes, hr]
    change r.finish = _
    rw [Reading.finish, hblocks, ← hstart]
  | @declaration before blanks more t _ after stop _ he hstretch hblanks ht htext hstop hrefused =>
    subst he
    have hall : AllFit p (before ++ blanks ++ t :: more) := by
      apply hfit.append_stretch
      intro s hs
      exact hstretch.stretch s (List.mem_append_right _ hs)
    obtain ⟨r, before', stretch', he, hr, hlocated⟩ := Reading.exists_located hall
    rw [List.append_assoc] at he
    obtain ⟨rfl, rfl⟩ := hlocated.delimited.unique hstretch he
    rw [List.append_assoc] at hrefused
    have hdeclare := hlocated.toAfter.declare_error hrefused
    rw [hlocated.textStart_eq, startOf_eq hblanks ht, Option.getD_some] at hdeclare
    rw [Lexeme.lexemes_readsTo (hts.append htext)]
    rcases hstop with rfl | rfl
    · exact ofLexemes_error hr hdeclare
    · rw [Lexeme.lexemes_begins .closing]
      refine ofLexemes_error hr ?_
      rw [Reading.step, hdeclare]
      rfl

theorem Token.Begins.isVisible {c : Char} (h : t.Begins cs rest) (hc : c ∈ t.chars)
    (hspace : Text.isSpace c = false) : t.isVisible = true := by
  cases h with
  | comment | opening | closing | semicolon => cases hc
  | string hquote => rcases hquote with rfl | rfl <;> rfl
  | pair => rfl
  | other =>
    obtain rfl := List.mem_singleton.1 hc
    simp [Token.isVisible, Token.chars, hspace]

theorem ReadsTo.exists_visible {c : Char} (h : ReadsTo rest cs ts) (hc : c ∈ textOf ts)
    (hspace : Text.isSpace c = false) :
    ∃ blanks t more, ts = blanks ++ t :: more ∧ (∀ b ∈ blanks, b.isVisible = false) ∧
      t.isVisible = true := by
  induction h with
  | nil => cases hc
  | @cons t cs ds ts ht _ ih =>
    by_cases hvisible : t.isVisible = true
    · exact ⟨[], t, ts, rfl, nofun, hvisible⟩
    · rw [textOf, List.flatMap_cons, List.mem_append] at hc
      have hlater := hc.resolve_left fun hc => hvisible (ht.isVisible hc hspace)
      obtain ⟨blanks, s, more, rfl, hblanks, hs⟩ := ih hlater
      refine ⟨t :: blanks, s, more, rfl, ?_, hs⟩
      exact List.forall_mem_cons.2 ⟨by simpa using hvisible, hblanks⟩

theorem exists_faultAt_of_not_fits {cs ds : List Char} (hts : ReadsTo ds cs ts)
    (ht : t.Begins ds rest) (hfit : AllFit p ts) (hnot : ¬Fits p ts t) :
    ∃ ts' text fault, ReadsTo text cs ts' ∧ AllFit p ts' ∧ FaultAt p ts' text fault := by
  obtain ⟨r, before, stretch, rfl, -, hlocated⟩ := Reading.exists_located hfit
  rw [hlocated.toAfter.fits_iff] at hnot
  by_cases hends : t = .semicolon ∨ t = .closing
  · have hstop : ∃ stop, (stop = ';' ∨ stop = '\x7d') ∧ ds = stop :: rest := by
      rcases hends with rfl | rfl
      · exact ⟨';', .inl rfl, ht.eq_append⟩
      · exact ⟨'\x7d', .inr rfl, ht.eq_append⟩
    by_cases hallowed : Allowed p (before ++ stretch) (textOf stretch)
    · obtain ⟨rfl, hblocks⟩ : t = .closing ∧ r.blocks = [] := by
        simpa [hallowed] using hnot
      cases ht with
      | closing =>
        refine ⟨_, _, _, hts, hfit, .close ?_ fun before' stretch' he hdelimited => ?_⟩
        · have hopened := hlocated.opened
          rw [hblocks] at hopened
          exact hopened.balanced
        · obtain ⟨rfl, rfl⟩ := hlocated.delimited.unique hdelimited he
          exact hallowed
    · obtain ⟨fault, hrefused⟩ : ∃ fault, Refused p (before ++ stretch) (textOf stretch) fault := by
        simpa [allowed_iff] using hallowed
      obtain ⟨c, hc, hspace⟩ := hrefused.exists_visible
      obtain ⟨mid, -, hstretch⟩ := hts.split
      obtain ⟨blanks, s, more, rfl, hblanks, hs⟩ := hstretch.exists_visible hc hspace
      rw [← List.append_assoc] at hts hfit hrefused
      obtain ⟨text, hto, htext⟩ := hts.split
      obtain ⟨stop, hstop, rfl⟩ := hstop
      refine ⟨before ++ blanks, text, fault, hto, hfit.of_append, ?_⟩
      exact .declaration rfl hlocated.delimited hblanks hs htext hstop hrefused
  · obtain ⟨rfl, -⟩ : t = .closing ∧ r.blocks = [] := by
      simpa [hends] using hnot
    simp at hends

theorem ofLexemes_isOk_or_exists_faultAt (p : Path) (cs : List Char) :
    (∃ sheet, ofLexemes p (Lexeme.ofText cs) = .ok sheet) ∨
      ∃ ts text fault, ReadsTo text cs ts ∧ AllFit p ts ∧ FaultAt p ts text fault := by
  rcases reads_or_unclosed cs with ⟨ts, hts⟩ | ⟨ts, rest, fault, hts, hopen⟩
  · rcases allFit_or_exists p ts with hfit | ⟨before, t, after, rfl, hfit, hnot⟩
    · obtain ⟨r, before, stretch, rfl, hr, hlocated⟩ := Reading.exists_located hfit
      have hstanding := hlocated.standing
      cases hblocks : r.blocks with
      | nil =>
        refine .inl ⟨r.found, ?_⟩
        rw [Lexeme.ofText_eq, Lexeme.lexemes_reads hts, ofLexemes, hr]
        change r.finish = _
        rw [Reading.finish, hblocks]
      | cons b blocks =>
        rw [hblocks, List.map_cons] at hstanding
        obtain ⟨outer, inner, he, hinner, -⟩ := hstanding.exists_block
        rw [he] at hts hfit
        obtain ⟨rest, hto, hrest⟩ := hts.split
        rcases hrest.begins with ⟨ds, hopening, hds⟩ | ⟨-, hne, -⟩
        · cases hopening
          exact .inr ⟨outer, _, _, hto, hfit.of_append, .block hds hinner hfit⟩
        · cases hne
    · obtain ⟨rest, hto, hrest⟩ := hts.split
      rcases hrest.begins with ⟨ds, ht, -⟩ | ⟨-, rfl, -⟩
      · exact .inr (exists_faultAt_of_not_fits hto ht hfit hnot)
      · exact absurd (fits_of_not_delimiter rfl) hnot
  · rcases allFit_or_exists p ts with hfit | ⟨before, t, after, rfl, hfit, hnot⟩
    · exact .inr ⟨ts, rest, fault, hts, hfit, .unclosed hopen⟩
    · obtain ⟨ds, hto, hrest⟩ := hts.split
      cases hrest with
      | cons ht _ => exact .inr (exists_faultAt_of_not_fits hto ht hfit hnot)

/-- Whether a line ends in a token behind a backslash. -/
def Token.HidesBreak : Token → Prop
  | .string _ body => '\n' ∈ body
  | .pair c => c = '\n'
  | _ => False

theorem count_map_unbroken (cs : List Char) : (cs.map unbroken).count '\n' = 0 := by
  apply List.count_eq_zero_of_not_mem
  intro h
  obtain ⟨c, -, hc⟩ := List.mem_map.1 h
  rw [unbroken] at hc
  split at hc
  · cases hc
  · next hne => exact hne hc

theorem map_unbroken (h : '\n' ∉ cs) : cs.map unbroken = cs := by
  induction cs with
  | nil => rfl
  | cons c cs ih =>
    rw [List.mem_cons, not_or] at h
    rw [List.map_cons, ih h.2, unbroken, if_neg (Ne.symm h.1)]

theorem Token.Begins.counted_eq (h : t.Begins cs rest) (hline : ¬t.HidesBreak) :
    t.counted = t.spelling := by
  cases h with
  | comment | opening | closing | semicolon | other => rfl
  | @string quote body _ hquote _ =>
    have hbody : '\n' ∉ body := hline
    apply map_unbroken
    rcases hquote with rfl | rfl <;> simp [Token.spelling, hbody]
  | @pair c =>
    have hc : '\n' ≠ c := fun hc => hline hc.symm
    apply map_unbroken
    simp [Token.spelling, hc]

theorem Token.count_counted_lt (hline : t.HidesBreak) :
    t.counted.count '\n' < t.spelling.count '\n' := by
  cases t with
  | comment | opening | closing | semicolon | other => cases hline
  | string quote body =>
    have hbody : '\n' ∈ body := hline
    rw [Token.counted, count_map_unbroken, List.count_pos_iff]
    simp [Token.spelling, hbody]
  | pair c =>
    obtain rfl : c = '\n' := hline
    rw [Token.counted, count_map_unbroken, List.count_pos_iff]
    simp [Token.spelling]

namespace ReadsTo

theorem counted_eq (h : ReadsTo rest cs ts) (hlines : ∀ t ∈ ts, ¬t.HidesBreak) :
    ts.flatMap Token.counted = ts.flatMap Token.spelling := by
  induction h with
  | nil => rfl
  | cons ht _ ih =>
    obtain ⟨hline, hlines⟩ := List.forall_mem_cons.1 hlines
    rw [List.flatMap_cons, List.flatMap_cons, ht.counted_eq hline, ih hlines]

theorem count_counted_le (h : ReadsTo rest cs ts) :
    (ts.flatMap Token.counted).count '\n' ≤ (ts.flatMap Token.spelling).count '\n' := by
  induction h with
  | nil => exact Nat.le_refl 0
  | @cons t _ _ _ ht _ ih =>
    rw [List.flatMap_cons, List.flatMap_cons, List.count_append, List.count_append]
    apply Nat.add_le_add _ ih
    by_cases hline : t.HidesBreak
    · exact Nat.le_of_lt (Token.count_counted_lt hline)
    · rw [ht.counted_eq hline]

theorem count_counted_lt (h : ReadsTo rest cs ts) (ht : t ∈ ts) (hline : t.HidesBreak) :
    (ts.flatMap Token.counted).count '\n' < (ts.flatMap Token.spelling).count '\n' := by
  obtain ⟨before, after, rfl⟩ := List.append_of_mem ht
  obtain ⟨ds, hbefore, hrest⟩ := h.split
  cases hrest with
  | cons _ hafter =>
    have hle := hbefore.count_counted_le
    have hlt := Token.count_counted_lt hline
    have hle' := hafter.count_counted_le
    simp only [List.flatMap_append, List.flatMap_cons, List.count_append]
    omega

/-- The place of what stands behind some tokens is right exactly if no line ends in one of them
behind a backslash. -/
theorem placeBehind_eq_iff (h : ReadsTo rest cs ts) :
    placeBehind ts = location (ts.flatMap Token.spelling) ↔ ∀ t ∈ ts, ¬t.HidesBreak := by
  constructor
  · intro hplace t ht hline
    have hlt := h.count_counted_lt ht hline
    have heq := congrArg Position.line hplace
    simp only [placeBehind, location] at heq
    omega
  · intro hlines
    rw [placeBehind, h.counted_eq hlines]

end ReadsTo

theorem parse_eq_stylesheetSyntax_iff {source : String} {e : Error} :
    parse p source = .error e ↔ ∃ place fault,
      ofLexemes p (Lexeme.ofText source.toList) = .error (place, fault) ∧
        e = .stylesheetSyntax p place fault := by
  rw [parse]
  split
  · next he => simp [he]
  · next he => simp [he, eq_comm]

/-- A stylesheet is rejected exactly if there is a fault in it, and reported is the first one and its
place, which is its line and its place in that unless a line before it ends behind a backslash. -/
theorem parse_error_location (p : Path) (source : String) (e : Error) :
    (parse p source = .error e ↔ ∃ ts text fault, ReadsTo text source.toList ts ∧ AllFit p ts ∧
        FaultAt p ts text fault ∧ e = .stylesheetSyntax p (placeBehind ts) fault) ∧
      ∀ ts text, ReadsTo text source.toList ts →
        source.toList = ts.flatMap Token.spelling ++ text ∧
          (placeBehind ts = location (ts.flatMap Token.spelling) ↔ ∀ t ∈ ts, ¬t.HidesBreak) := by
  refine ⟨?_, fun ts text hts => ⟨hts.eq_append, hts.placeBehind_eq_iff⟩⟩
  rw [parse_eq_stylesheetSyntax_iff]
  constructor
  · rintro ⟨place, fault, he, rfl⟩
    rcases ofLexemes_isOk_or_exists_faultAt p source.toList with ⟨sheet, hok⟩ | hfault
    · rw [hok] at he
      cases he
    · obtain ⟨ts, text, fault', hts, hfit, hat⟩ := hfault
      rw [hat.ofLexemes_eq hts hfit] at he
      cases he
      exact ⟨ts, text, fault, hts, hfit, hat, rfl⟩
  · rintro ⟨ts, text, fault, hts, hfit, hat, rfl⟩
    exact ⟨_, _, hat.ofLexemes_eq hts hfit, rfl⟩

/-- A line that ends behind a backslash is not counted. -/
theorem parse_error_line_ne : ∃ before,
    "a::before \x7b content: \"x\\\ny\" \x7d\n \x7d".toList = before ++ ['\x7d'] ∧
      location before = ⟨3, 2⟩ ∧
      parse ⟨"/p/a.css"⟩ "a::before \x7b content: \"x\\\ny\" \x7d\n \x7d" =
        .error (.stylesheetSyntax ⟨"/p/a.css"⟩ ⟨2, 2⟩ .unexpectedClose) :=
  ⟨"a::before \x7b content: \"x\\\ny\" \x7d\n ".toList, rfl, rfl, by decide +kernel⟩

end Stylesheet

end CssModules
