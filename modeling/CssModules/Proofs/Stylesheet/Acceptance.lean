import CssModules.Proofs.Stylesheet.ClassNames
import CssModules.Proofs.Stylesheet.Scanning
import CssModules.Stylesheet.Parse
import Mathlib.Data.List.TakeWhile

namespace CssModules

namespace Stylesheet

def Token.isDelimiter : Token → Bool
  | .opening | .closing | .semicolon => true
  | _ => false

def Token.isVisible (t : Token) : Bool := t.chars.head?.any (!Text.isSpace ·)

/-- What tokens say in a selector or declaration. -/
def textOf (ts : List Token) : List Char := ts.flatMap Token.chars

/-- Every brace that closes has one that opens before it, and none is left open. -/
structure Balanced (ts : List Token) : Prop where
  never_less : ∀ before, before <+: ts → before.count .closing ≤ before.count .opening
  closed : ts.count .closing = ts.count .opening

/-- A stretch has no delimiter in it, and nothing or one stands before it. -/
structure Delimited (before stretch : List Token) : Prop where
  before : ∀ t ∈ before.getLast?, t.isDelimiter = true
  stretch : ∀ t ∈ stretch, t.isDelimiter = false

/-- The innermost block that is open behind some tokens is the one of a selector or at-rule `head`,
which stands behind `outer`. -/
def InBlock (ts outer head : List Token) : Prop :=
  ∃ inner, ts = outer ++ head ++ .opening :: inner ∧ Delimited outer head ∧ Balanced inner

def IsKeyframes (rule : List Char) : Prop :=
  "keyframes".toList <:+ (rule.takeWhile fun c => !Text.isSpace c && c != '(').map Char.toLower

def InKeyframes (ts : List Token) : Prop :=
  ∃ outer head rule, InBlock ts outer head ∧ Text.trim (textOf head) = '@' :: rule ∧
    IsKeyframes rule

/-- Whether the innermost block behind some tokens is a rule, and no frame of an animation, the
whole selector of which is one class. -/
def InClassRule (ts : List Token) : Prop :=
  ∃ outer head name, InBlock ts outer head ∧ Text.trim (textOf head) = '.' :: name ∧
    Selector.IsClass name ∧ ¬InKeyframes (outer ++ head)

/-- Whether a declaration may stand where these tokens end: if it composes, it does so in a rule for
one class and has names to compose. -/
def Allowed (stylesheet : Path) (ts : List Token) (declaration : List Char) : Prop :=
  ∀ property value, Text.trim declaration = property ++ ':' :: value → ':' ∉ property →
    (Text.trim property).map Char.toLower ∈ ["composes".toList, "compose-with".toList] →
      InClassRule ts ∧
        Composition.tokensOf (Composition.splitSource stylesheet (Text.trim value)).1 ≠ []

variable {p : Path} {ts more inner inner' outer outer' head head' before before' stretch stretch' :
  List Token} {t : Token} {q q' : Position} {r r' : Reading} {b : Block} {blocks : List Block}

namespace Balanced

theorem nil : Balanced [] where
  never_less before h := by
    rw [List.prefix_nil.1 h]
    exact Nat.le_refl 0
  closed := rfl

theorem append (h : Balanced ts) (h' : Balanced more) : Balanced (ts ++ more) where
  never_less before hb := by
    obtain ⟨rest, he⟩ := hb
    rcases List.append_eq_append_iff.1 he with ⟨m, rfl, -⟩ | ⟨m, rfl, hm⟩
    · exact h.never_less before (List.prefix_append ..)
    · rw [List.count_append, List.count_append, h.closed]
      exact Nat.add_le_add_left (h'.never_less m ⟨rest, hm.symm⟩) _
  closed := by rw [List.count_append, List.count_append, h.closed, h'.closed]

theorem block (h : Balanced inner) : Balanced (.opening :: inner ++ [.closing]) where
  never_less before hb := by
    rw [List.cons_append, List.prefix_cons_iff] at hb
    rcases hb with rfl | ⟨rest, rfl, hb⟩
    · rfl
    · rcases List.prefix_concat_iff.1 hb with rfl | hb
      · simp [h.closed]
      · have hle := h.never_less rest hb
        simp
        omega
  closed := by simp [h.closed]

theorem singleton (hopen : t ≠ .opening) (hclose : t ≠ .closing) : Balanced [t] where
  never_less before hb := by
    have hmem : .closing ∉ before := fun h => hclose (List.mem_singleton.1 (hb.subset h)).symm
    rw [List.count_eq_zero_of_not_mem hmem]
    exact Nat.zero_le _
  closed := by simp [hopen, hclose]

theorem block_unique (h : Balanced inner) (h' : Balanced inner')
    (he : outer ++ .opening :: inner = outer' ++ .opening :: inner') :
    outer = outer' ∧ inner = inner' := by
  have within {m inner inner' : List Token} (h : Balanced inner) (h' : Balanced inner')
      (he : .opening :: inner = m ++ .opening :: inner') : m = [] := by
    cases m with
    | nil => rfl
    | cons t m =>
      obtain ⟨rfl, rfl⟩ := List.cons.inj he
      have hle := h.never_less m (List.prefix_append ..)
      have heq := h.closed
      simp [List.count_append, h'.closed] at heq
      omega
  rcases List.append_eq_append_iff.1 he with ⟨m, rfl, hm⟩ | ⟨m, rfl, hm⟩
  · obtain rfl := within h h' hm
    simpa using hm
  · obtain rfl := within h' h hm
    simpa [eq_comm] using hm

theorem ne_block (h : Balanced ts) (h' : Balanced inner) : ts ≠ outer ++ .opening :: inner := by
  rintro rfl
  have hle := h.never_less outer (List.prefix_append ..)
  have heq := h.closed
  simp [List.count_append, h'.closed] at heq
  omega

end Balanced

theorem Delimited.unique (h : Delimited before stretch) (h' : Delimited before' stretch')
    (he : before ++ stretch = before' ++ stretch') : before = before' ∧ stretch = stretch' := by
  have within {before stretch stretch' m : List Token} (h : Delimited before stretch)
      (h' : Delimited (before ++ m) stretch') (hm : stretch = m ++ stretch') : m = [] := by
    by_contra hne
    have hlast : (before ++ m).getLast? = some (m.getLast hne) := by
      rw [List.getLast?_append, List.getLast?_eq_some_getLast hne, Option.some_or]
    have hdelimiter := h'.before _ hlast
    rw [h.stretch _ (hm ▸ List.mem_append_left _ (List.getLast_mem hne))] at hdelimiter
    cases hdelimiter
  rcases List.append_eq_append_iff.1 he with ⟨m, rfl, hm⟩ | ⟨m, rfl, hm⟩
  · obtain rfl := within h h' hm
    simpa using hm
  · obtain rfl := within h' h hm
    simpa [eq_comm] using hm

theorem Delimited.snoc (h : Delimited before stretch) (ht : t.isDelimiter = false) :
    Delimited before (stretch ++ [t]) where
  before := h.before
  stretch t' ht' := by
    rcases List.mem_append.1 ht' with ht' | ht'
    · exact h.stretch t' ht'
    · rw [List.mem_singleton.1 ht']
      exact ht

theorem Delimited.behind (ht : t.isDelimiter = true) : Delimited (ts ++ [t]) [] where
  before t' ht' := by
    rw [List.getLast?_concat, Option.mem_some_iff] at ht'
    rw [← ht']
    exact ht
  stretch t' ht' := by cases ht'

theorem InBlock.unique (h : InBlock ts outer head) (h' : InBlock ts outer' head') :
    outer = outer' ∧ head = head' := by
  obtain ⟨inner, he, hhead, hinner⟩ := h
  obtain ⟨inner', he', hhead', hinner'⟩ := h'
  obtain ⟨heads, -⟩ := hinner.block_unique hinner' (he.symm.trans he')
  exact hhead.unique hhead' heads

/-- What a block is by the text before its brace and the blocks around it. -/
structure Block.Of (b : Block) (prelude : List Char) (around : List Block) : Prop where
  keyframes_iff : b.kind = .keyframes ↔ ∃ rule, prelude = '@' :: rule ∧ IsKeyframes rule
  class_iff : (b.kind = .rule ∧ b.soleClass.isSome) ↔
    (∃ name, prelude = '.' :: name ∧ Selector.IsClass name) ∧
      ∀ outer ∈ around.head?, outer.kind ≠ .keyframes

/-- The blocks that are open behind some tokens, innermost first. -/
inductive Opened : List Token → List Block → Prop where
  | nil {ts : List Token} (h : Balanced ts) : Opened ts []
  | cons {outer head inner : List Token} {b : Block} {blocks : List Block}
      (hhead : Delimited outer head) (hinner : Balanced inner)
      (rest : Opened (outer ++ head) blocks) (hb : b.Of (Text.trim (textOf head)) blocks) :
      Opened (outer ++ head ++ .opening :: inner) (b :: blocks)

namespace Opened

theorem append (h : Opened ts blocks) (hmore : Balanced more) : Opened (ts ++ more) blocks := by
  cases h with
  | nil h => exact .nil (h.append hmore)
  | cons hhead hinner rest hb =>
    rw [List.append_assoc, List.cons_append]
    exact .cons hhead (hinner.append hmore) rest hb

theorem opening (h : Opened (before ++ stretch) blocks) (hstretch : Delimited before stretch)
    (hb : b.Of (Text.trim (textOf stretch)) blocks) :
    Opened (before ++ stretch ++ [.opening]) (b :: blocks) :=
  .cons hstretch .nil h hb

theorem closing (h : Opened ts (b :: blocks)) : Opened (ts ++ [.closing]) blocks := by
  cases h with
  | cons hhead hinner rest hb =>
    rw [List.append_assoc]
    exact rest.append hinner.block

theorem balanced (h : Opened ts []) : Balanced ts := by
  cases h with
  | nil h => exact h

theorem count_eq (h : Opened ts blocks) :
    ts.count .opening = ts.count .closing + blocks.length := by
  induction h with
  | nil h => simp [h.closed]
  | cons hhead hinner rest hb ih =>
    simp [List.count_append, hinner.closed] at ih ⊢
    omega

theorem of_inBlock (h : Opened ts blocks) (hin : InBlock ts outer head) :
    ∃ b around, blocks = b :: around ∧ Opened (outer ++ head) around ∧
      b.Of (Text.trim (textOf head)) around := by
  cases h with
  | nil h =>
    obtain ⟨inner, he, -, hinner⟩ := hin
    exact absurd he (h.ne_block hinner)
  | cons hhead hinner rest hb =>
    obtain ⟨rfl, rfl⟩ := hin.unique ⟨_, rfl, hhead, hinner⟩
    exact ⟨_, _, rfl, rest, hb⟩

theorem inBlock (h : Opened ts (b :: blocks)) :
    ∃ outer head, InBlock ts outer head ∧ Opened (outer ++ head) blocks ∧
      b.Of (Text.trim (textOf head)) blocks := by
  cases h with
  | cons hhead hinner rest hb => exact ⟨_, _, ⟨_, rfl, hhead, hinner⟩, rest, hb⟩

theorem inKeyframes_iff (h : Opened ts blocks) :
    InKeyframes ts ↔ ∃ b ∈ blocks.head?, b.kind = .keyframes := by
  constructor
  · rintro ⟨outer, head, rule, hin, hrule⟩
    obtain ⟨b, around, rfl, -, hb⟩ := h.of_inBlock hin
    exact ⟨b, rfl, hb.keyframes_iff.2 ⟨rule, hrule⟩⟩
  · rintro ⟨b, hmem, hkind⟩
    obtain ⟨around, rfl⟩ := List.head?_eq_some_iff.1 hmem
    obtain ⟨outer, head, hin, -, hb⟩ := h.inBlock
    obtain ⟨rule, hrule⟩ := hb.keyframes_iff.1 hkind
    exact ⟨outer, head, rule, hin, hrule⟩

theorem inClassRule_iff (h : Opened ts blocks) :
    InClassRule ts ↔ ∃ b ∈ blocks.head?, b.kind = .rule ∧ b.soleClass.isSome := by
  constructor
  · rintro ⟨outer, head, name, hin, hname, hclass, hframes⟩
    obtain ⟨b, around, rfl, rest, hb⟩ := h.of_inBlock hin
    rw [rest.inKeyframes_iff] at hframes
    exact ⟨b, rfl, hb.class_iff.2 ⟨⟨name, hname, hclass⟩, fun o ho hk => hframes ⟨o, ho, hk⟩⟩⟩
  · rintro ⟨b, hmem, hkind⟩
    obtain ⟨around, rfl⟩ := List.head?_eq_some_iff.1 hmem
    obtain ⟨outer, head, hin, rest, hb⟩ := h.inBlock
    obtain ⟨⟨name, hname, hclass⟩, hframes⟩ := hb.class_iff.1 hkind
    refine ⟨outer, head, name, hin, hname, hclass, ?_⟩
    rw [rest.inKeyframes_iff]
    rintro ⟨o, ho, hk⟩
    exact hframes o ho hk

end Opened

theorem splitColon_eq_some_iff {declaration property value : List Char} :
    Composition.splitColon declaration = some (property, value) ↔
      declaration = property ++ ':' :: value ∧ ':' ∉ property := by
  rw [Composition.splitColon]
  constructor
  · intro h
    split at h
    · cases h
    · next c rest hrest =>
      cases h
      have hc := List.head_dropWhile_not (· != ':') (l := declaration) (by simp [hrest])
      simp [hrest] at hc
      subst hc
      refine ⟨?_, fun hmem => ?_⟩
      · rw [← hrest, List.takeWhile_append_dropWhile]
      · simpa using List.mem_takeWhile_imp hmem
  · rintro ⟨rfl, hproperty⟩
    have hall : ∀ c ∈ property, (c != ':') = true := by
      intro c hc
      exact bne_iff_ne.2 (ne_of_mem_of_not_mem hc hproperty)
    rw [List.dropWhile_append_of_pos hall, List.takeWhile_append_of_pos hall]
    simp

theorem isComposing_iff {property : List Char} : Composition.isComposing property = true ↔
    (Text.trim property).map Char.toLower ∈ ["composes".toList, "compose-with".toList] := by
  simp only [Composition.isComposing, Bool.or_eq_true, beq_iff_eq, List.mem_cons, List.not_mem_nil,
    or_false]

theorem atRuleKind_eq_keyframes_iff {rule : List Char} :
    atRuleKind rule = .keyframes ↔ IsKeyframes rule := by
  rw [atRuleKind, IsKeyframes, ← List.isSuffixOf_iff_suffix]
  split
  · simp_all
  · split <;> simp_all

namespace Reading

theorem openBlock_spec (r : Reading) (start : Position) :
    ∃ b, (r.openBlock start).blocks = b :: r.blocks ∧ (r.openBlock start).text = [] ∧
      b.Of (Text.trim r.text) r.blocks := by
  rw [openBlock]
  split
  · next rule hprelude =>
    refine ⟨_, rfl, rfl, ?_, ?_⟩
    · simp [hprelude, atRuleKind_eq_keyframes_iff]
    · simp [hprelude]
  · next hkind hrule =>
    obtain ⟨frames, hmem, hframes⟩ := Option.map_eq_some_iff.1 hkind
    refine ⟨_, rfl, rfl, ?_, ?_⟩
    · simpa using fun rule hprelude => absurd hprelude (hrule rule)
    · constructor
      · rintro ⟨hother, -⟩
        cases hother
      · rintro ⟨-, hnone⟩
        exact absurd hframes (hnone frames hmem)
  · next hrule hkind =>
    refine ⟨_, rfl, rfl, ?_, ?_⟩
    · simpa using fun rule hprelude => absurd hprelude (hrule rule)
    · rw [and_iff_right rfl]
      constructor
      · intro hsole
        refine ⟨?_, fun frames hmem hframes => hkind ?_⟩
        · split at hsole
          · next name hclasses =>
            split at hsole
            · next hprelude =>
              rw [hprelude] at hclasses
              exact ⟨name, hprelude, Selector.localClasses_eq_singleton_iff.1 hclasses⟩
            · cases hsole
          · cases hsole
        · exact Option.map_eq_some_iff.2 ⟨frames, hmem, hframes⟩
      · rintro ⟨⟨name, hprelude, hclass⟩, -⟩
        simp [hprelude, Selector.localClasses_eq_singleton_iff.2 hclass]

theorem declare_isOk_iff (r : Reading) (p : Path) :
    (∃ r', r.declare p = .ok r') ↔
      ∀ property value, Text.trim r.text = property ++ ':' :: value → ':' ∉ property →
        (Text.trim property).map Char.toLower ∈ ["composes".toList, "compose-with".toList] →
          (∃ b ∈ r.blocks.head?, b.kind = .rule ∧ b.soleClass.isSome) ∧
            Composition.tokensOf (Composition.splitSource p (Text.trim value)).1 ≠ [] := by
  rw [declare]
  split
  · next hnone =>
    refine iff_of_true ⟨_, rfl⟩ fun property value htext hproperty => ?_
    rw [splitColon_eq_some_iff.2 ⟨htext, hproperty⟩] at hnone
    cases hnone
  · next property value hsome =>
    obtain ⟨htext, hproperty⟩ := splitColon_eq_some_iff.1 hsome
    have hall {motive : List Char → List Char → Prop} :
        (∀ property' value', Text.trim r.text = property' ++ ':' :: value' → ':' ∉ property' →
          motive property' value') ↔ motive property value := by
      refine ⟨fun h => h property value htext hproperty, ?_⟩
      intro h property' value' htext' hproperty'
      rw [splitColon_eq_some_iff.2 ⟨htext', hproperty'⟩] at hsome
      obtain ⟨rfl, rfl⟩ := hsome
      exact h
    rw [hall, ← isComposing_iff]
    split
    · next hcomposing =>
      refine iff_of_true ⟨_, rfl⟩ fun hproperty => ?_
      simp [hproperty] at hcomposing
    · next hcomposing =>
      have hcomposing : Composition.isComposing property = true := by simpa using hcomposing
      rw [imp_iff_right hcomposing]
      split
      · next hblocks =>
        dsimp only
        split
        · simp_all
        · simp_all
      · next hblocks =>
        refine iff_of_false (by simp) ?_
        rintro ⟨⟨b, hmem, hkind, hsole⟩, -⟩
        obtain ⟨around, he⟩ := List.head?_eq_some_iff.1 hmem
        obtain ⟨name, hname⟩ := Option.isSome_iff_exists.1 hsole
        cases b
        cases hkind
        cases hname
        exact hblocks _ _ _ he

theorem declare_spec {p : Path} (h : r.declare p = .ok r') :
    r'.blocks = r.blocks ∧ r'.text = [] := by
  rw [declare] at h
  split at h
  · cases h
    exact ⟨rfl, rfl⟩
  · split at h
    · cases h
      exact ⟨rfl, rfl⟩
    · split at h
      · next hblocks =>
        dsimp only at h
        split at h
        · cases h
        · cases h
          exact ⟨rfl, rfl⟩
      · cases h

/-- A reading that has got behind some tokens: its text is what they say since the last delimiter,
and its blocks are those that are open. -/
structure After (r : Reading) (before stretch : List Token) : Prop where
  text_eq : r.text = textOf stretch
  delimited : Delimited before stretch
  opened : Opened (before ++ stretch) r.blocks

theorem after_initial : initial.After [] [] where
  text_eq := rfl
  delimited := ⟨nofun, nofun⟩
  opened := .nil .nil

theorem After.declare_isOk_iff (h : r.After before stretch) :
    (∃ r', r.declare p = .ok r') ↔ Allowed p (before ++ stretch) (textOf stretch) := by
  rw [Reading.declare_isOk_iff, h.text_eq, Allowed]
  simp only [h.opened.inClassRule_iff]

end Reading

/-- Whether a token may come behind others. -/
structure Fits (p : Path) (ts : List Token) (t : Token) : Prop where
  closes : t = .closing → ts.count .closing < ts.count .opening
  ends : t = .semicolon ∨ t = .closing → ∀ before stretch, ts = before ++ stretch →
    Delimited before stretch → Allowed p ts (textOf stretch)

theorem Reading.After.fits_iff (h : r.After before stretch) : Fits p (before ++ stretch) t ↔
    (t = .closing → r.blocks ≠ []) ∧
      (t = .semicolon ∨ t = .closing → Allowed p (before ++ stretch) (textOf stretch)) := by
  have hcount := h.opened.count_eq
  constructor
  · intro hfits
    refine ⟨fun ht hnil => ?_, fun ht => hfits.ends ht before stretch rfl h.delimited⟩
    have hlt := hfits.closes ht
    rw [hnil, List.length_nil] at hcount
    omega
  · rintro ⟨hcloses, hends⟩
    refine ⟨fun ht => ?_, fun ht before' stretch' he hdelimited => ?_⟩
    · have hpos := List.length_pos_iff.2 (hcloses ht)
      omega
    · obtain ⟨rfl, rfl⟩ := h.delimited.unique hdelimited he
      exact hends ht

theorem Reading.foldlM_stretch (p : Path) (q : Position) (r : Reading)
    (hstretch : t.isDelimiter = false) :
    (t.lexemes q).foldlM (Reading.step p) r = .ok { r with
      text := r.text ++ t.chars
      textStart := if r.textStart.isNone && t.isVisible then some q.beside else r.textStart } := by
  cases t with
  | comment =>
    simp only [Token.isVisible, Token.chars, List.head?_nil, Option.any_none, Bool.and_false,
      List.append_nil]
    rfl
  | string | pair => rfl
  | other c =>
    by_cases hbreak : c = '\n'
    · subst hbreak
      have hblank : (Token.other '\n').isVisible = false := rfl
      rw [hblank, Bool.and_false]
      simp [Token.lexemes, Reading.step, Token.chars, Text.isSpace]
    · rw [Token.lexemes, Position.next_of_ne q hbreak]
      rfl
  | opening | closing | semicolon => cases hstretch

theorem Reading.foldlM_singleton {l : Lexeme} : [l].foldlM (Reading.step p) r = r.step p l := by
  rw [List.foldlM_cons]
  exact bind_pure _

theorem Reading.step_closing_eq_ok_iff {start : Position} :
    r.step p (.closing start) = .ok r' ↔
      ∃ declared b blocks, r.declare p = .ok declared ∧ declared.blocks = b :: blocks ∧
        { declared with blocks } = r' := by
  rw [Reading.step, bind_eq_ok_iff]
  refine exists_congr fun declared => ?_
  split
  · simp_all
  · simp_all

namespace Reading.After

theorem step_isOk_iff (h : r.After before stretch) (q : Position) :
    (∃ r', (t.lexemes q).foldlM (step p) r = .ok r') ↔ Fits p (before ++ stretch) t := by
  rw [h.fits_iff, ← h.declare_isOk_iff]
  cases t with
  | comment | string | pair | other =>
    exact iff_of_true ⟨_, foldlM_stretch p q r rfl⟩ ⟨nofun, nofun⟩
  | opening => exact iff_of_true ⟨_, rfl⟩ ⟨nofun, nofun⟩
  | semicolon =>
    rw [Token.lexemes, foldlM_singleton]
    exact ⟨fun h => ⟨nofun, fun _ => h⟩, fun h => h.2 (.inl rfl)⟩
  | closing =>
    rw [Token.lexemes, foldlM_singleton]
    simp only [step_closing_eq_ok_iff, forall_const, or_true]
    constructor
    · rintro ⟨_, declared, b, blocks, hdeclared, hblocks, -⟩
      rw [(declare_spec hdeclared).1] at hblocks
      exact ⟨hblocks ▸ List.cons_ne_nil b blocks, declared, hdeclared⟩
    · rintro ⟨hne, declared, hdeclared⟩
      obtain ⟨b, blocks, hblocks⟩ := List.exists_cons_of_ne_nil hne
      rw [← (declare_spec hdeclared).1] at hblocks
      exact ⟨_, declared, b, blocks, hdeclared, hblocks, rfl⟩

theorem step (h : r.After before stretch)
    (hr : (t.lexemes q).foldlM (Reading.step p) r = .ok r') :
    ∃ before' stretch', before' ++ stretch' = before ++ stretch ++ [t] ∧
      r'.After before' stretch' := by
  cases t with
  | comment | string | pair | other =>
    cases (foldlM_stretch p q r rfl).symm.trans hr
    refine ⟨before, stretch ++ [_], (List.append_assoc ..).symm, ?_, h.delimited.snoc rfl, ?_⟩
    · rw [h.text_eq, textOf, textOf, List.flatMap_append, List.flatMap_singleton]
    · rw [← List.append_assoc]
      exact h.opened.append (.singleton nofun nofun)
  | opening =>
    cases hr
    obtain ⟨b, hblocks, htext, hb⟩ := openBlock_spec r q.beside
    refine ⟨before ++ stretch ++ [.opening], [], List.append_nil _, htext, .behind rfl, ?_⟩
    rw [h.text_eq] at hb
    rw [hblocks, List.append_nil]
    exact h.opened.opening h.delimited hb
  | semicolon =>
    rw [Token.lexemes, foldlM_singleton] at hr
    obtain ⟨hblocks, htext⟩ := declare_spec hr
    refine ⟨before ++ stretch ++ [.semicolon], [], List.append_nil _, htext, .behind rfl, ?_⟩
    rw [hblocks, List.append_nil]
    exact h.opened.append (.singleton nofun nofun)
  | closing =>
    rw [Token.lexemes, foldlM_singleton, step_closing_eq_ok_iff] at hr
    obtain ⟨declared, b, blocks, hdeclared, hblocks, rfl⟩ := hr
    obtain ⟨hsame, htext⟩ := declare_spec hdeclared
    refine ⟨before ++ stretch ++ [.closing], [], List.append_nil _, htext, .behind rfl, ?_⟩
    have hopened := h.opened
    rw [← hsame, hblocks] at hopened
    rw [List.append_nil]
    exact hopened.closing

theorem finish_isOk_iff (h : r.After before stretch) :
    (∃ sheet, r.finish = .ok sheet) ↔
      (before ++ stretch).count .closing = (before ++ stretch).count .opening := by
  have hcount := h.opened.count_eq
  rw [Reading.finish]
  split
  · next hblocks =>
    rw [hblocks] at hcount
    exact iff_of_true ⟨_, rfl⟩ hcount.symm
  · next hblocks =>
    rw [hblocks, List.length_cons] at hcount
    exact iff_of_false nofun (by omega)

theorem forall_split_cons_iff {motive : List Token → Token → Prop} :
    (∀ mid t' rest, t :: ts = mid ++ t' :: rest → motive mid t') ↔
      motive [] t ∧ ∀ mid t' rest, ts = mid ++ t' :: rest → motive (t :: mid) t' := by
  constructor
  · intro h
    exact ⟨h [] t ts rfl, fun mid t' rest he => h (t :: mid) t' rest (congrArg _ he)⟩
  · rintro ⟨hfirst, hrest⟩ mid t' rest he
    cases mid with
    | nil =>
      cases he
      exact hfirst
    | cons t mid =>
      rw [List.cons_append, List.cons.injEq] at he
      obtain ⟨rfl, he⟩ := he
      exact hrest mid t' rest he

-- By induction on the tokens that are left; those that have been read are in `After`.
/-- A reading comes to its end exactly if each token may come behind those before it, and all blocks
are closed. -/
theorem run_isOk_iff (ts : List Token) (q : Position) (h : r.After before stretch) :
    (∃ sheet, (lexemesOf q ts).foldlM (Reading.step p) r >>= finish = .ok sheet) ↔
      (∀ mid t rest, ts = mid ++ t :: rest → Fits p (before ++ stretch ++ mid) t) ∧
        (before ++ stretch ++ ts).count .closing = (before ++ stretch ++ ts).count .opening := by
  induction ts generalizing q r before stretch with
  | nil =>
    rw [List.append_nil, ← h.finish_isOk_iff]
    exact (and_iff_right fun mid t rest he => absurd he (by simp)).symm
  | cons t ts ih =>
    rw [forall_split_cons_iff, List.append_nil, ← h.step_isOk_iff q, lexemesOf,
      List.foldlM_append, and_assoc]
    cases hr : (t.lexemes q).foldlM (Reading.step p) r with
    | error e =>
      apply iff_of_false
      · rintro ⟨sheet, hsheet⟩
        cases hsheet
      · rintro ⟨⟨r', hr'⟩, -⟩
        cases hr'
    | ok r' =>
      obtain ⟨before', stretch', hbefore, h'⟩ := h.step hr
      have hiff := ih (q.past t.counted) h'
      simp only [hbefore, List.append_assoc, List.singleton_append] at hiff ⊢
      rw [and_iff_right ⟨r', rfl⟩]
      exact hiff

end Reading.After

theorem balanced_iff : Balanced ts ↔
    (∀ mid t rest, ts = mid ++ t :: rest → t = .closing → mid.count .closing < mid.count .opening) ∧
      ts.count .closing = ts.count .opening := by
  constructor
  · intro h
    refine ⟨?_, h.closed⟩
    rintro mid t rest rfl rfl
    have hle := h.never_less (mid ++ [.closing]) ⟨rest, by simp⟩
    simp at hle
    omega
  · rintro ⟨hcloses, hclosed⟩
    refine ⟨fun before => ?_, hclosed⟩
    induction before using List.reverseRecOn with
    | nil => exact fun _ => Nat.le_refl 0
    | append_singleton before t ih =>
      rintro ⟨rest, he⟩
      have hle := ih ⟨t :: rest, by simpa using he⟩
      have hlt := hcloses before t rest (by simpa using he.symm)
      rw [List.count_append, List.count_append]
      by_cases ht : t = .closing
      · subst ht
        have hlt := hlt rfl
        simp
        omega
      · simp [ht]
        omega

theorem ofLexemes_isOk_iff (q : Position) (ts : List Token) :
    (∃ sheet, ofLexemes p (lexemesOf q ts) = .ok sheet) ↔
      Balanced ts ∧ ∀ before stretch stop after, ts = before ++ stretch ++ stop :: after →
        Delimited before stretch → stop = .semicolon ∨ stop = .closing →
          Allowed p (before ++ stretch) (textOf stretch) := by
  rw [balanced_iff, and_right_comm]
  refine (Reading.after_initial.run_isOk_iff ts q).trans (and_congr_left fun _ => ?_)
  constructor
  · intro h
    refine ⟨fun mid t rest he => (h mid t rest he).closes, ?_⟩
    intro before stretch stop after he hdelimited hstop
    exact (h (before ++ stretch) stop after he).ends hstop before stretch rfl hdelimited
  · rintro ⟨hcloses, hends⟩ mid t rest rfl
    refine ⟨hcloses mid t rest rfl, fun ht before stretch he hdelimited => ?_⟩
    obtain rfl : mid = before ++ stretch := he
    exact hends before stretch t rest rfl hdelimited ht

theorem parse_eq_ok_iff {source : String} {sheet : Stylesheet} :
    parse p source = .ok sheet ↔ ofLexemes p (Lexeme.ofText source.toList) = .ok sheet := by
  rw [parse]
  split
  · next he => rw [he]; simp
  · next he => rw [he]; simp

theorem ofLexemes_fault {lexemes : List Lexeme} {fault : SyntaxFault} {sheet : Stylesheet} :
    ofLexemes p (lexemesOf q ts ++ .fault q' fault :: lexemes) ≠ .ok sheet := by
  intro h
  obtain ⟨r, hr, -⟩ := bind_eq_ok_iff.1 h
  rw [List.foldlM_append] at hr
  obtain ⟨r', -, hfault⟩ := bind_eq_ok_iff.1 hr
  cases hfault

/-- A stylesheet is accepted exactly if it can be read as tokens, which it can in one way at most,
the blocks of which are balanced, and every declaration of which may stand where it does. -/
theorem parse_isOk_iff (p : Path) (source : String) :
    (∀ ts ts', Reads source.toList ts → Reads source.toList ts' → ts = ts') ∧
      ((∃ sheet, parse p source = .ok sheet) ↔ ∃ ts, Reads source.toList ts ∧ Balanced ts ∧
        ∀ before stretch stop after, ts = before ++ stretch ++ stop :: after →
          Delimited before stretch → stop = .semicolon ∨ stop = .closing →
            Allowed p (before ++ stretch) (textOf stretch)) := by
  refine ⟨fun ts ts' h h' => h.unique h', ?_⟩
  simp only [parse_eq_ok_iff, Lexeme.ofText_eq]
  constructor
  · rintro ⟨sheet, h⟩
    rcases reads_or_unclosed source.toList with ⟨ts, hts⟩ | ⟨ts, rest, fault, hts, hopen⟩
    · rw [Lexeme.lexemes_reads hts] at h
      exact ⟨ts, hts, (ofLexemes_isOk_iff _ ts).1 ⟨sheet, h⟩⟩
    · obtain ⟨ls, hls⟩ := Lexeme.lexemes_unclosed hopen (Position.past ⟨1, 0⟩ _)
      rw [Lexeme.lexemes_readsTo hts, hls] at h
      exact absurd h ofLexemes_fault
  · rintro ⟨ts, hts, hallowed⟩
    rw [Lexeme.lexemes_reads hts]
    exact (ofLexemes_isOk_iff _ ts).2 hallowed

end Stylesheet

end CssModules
