import CssModules.Proofs.Identifier.Unspaced
import CssModules.Proofs.Resolution.Interleaving
import CssModules.Proofs.Resolution.Provenance
import CssModules.Proofs.Stylesheet.Contents

namespace CssModules

abbrev ClassLists := String → Option (List String)

namespace ClassLists

/-- A list with further elements behind those that it has, each if it is not in there already. -/
def gain (xs ys : List String) : List String :=
  ys.foldl (fun xs y => if y ∈ xs then xs else xs ++ [y]) xs

def compose (lists : ClassLists) (name : String) (elements : List String) : ClassLists :=
  fun other =>
    if other = name then some (gain ((lists name).getD []) elements) else lists other

def elements? (lists : ClassLists) (names : List String) : Option (List String) :=
  (names.mapM fun name => lists (Identifier.unescape name)).map List.flatten

/-- The lists of a stylesheet before its compositions: of each of its classes the name of its first
spelling. -/
def declared (lib : Library) (p : Path) (names : List String) : ClassLists := fun name =>
  (names.find? fun spelling => Identifier.unescape spelling == name).map fun spelling =>
    [lib.name spelling p]

def Of (lists : ClassLists) (IsElement : String → Prop) : Prop :=
  ∀ (name : String) (list : List String), lists name = some list →
    list.Nodup ∧ ∀ element ∈ list, IsElement element

section Gain

variable {xs ys : List String}

theorem gain_eq_addNames (xs ys : List String) : gain xs ys = Stylesheet.addNames xs ys := by
  simp only [gain, Stylesheet.addNames, List.contains_iff_mem]

theorem prefix_gain (xs ys : List String) : xs <+: gain xs ys :=
  gain_eq_addNames xs ys ▸ Stylesheet.prefix_addNames xs ys

theorem mem_gain {x : String} : x ∈ gain xs ys ↔ x ∈ xs ∨ x ∈ ys := by
  rw [gain_eq_addNames]
  exact Stylesheet.mem_addNames

theorem nodup_gain (hx : xs.Nodup) (ys : List String) : (gain xs ys).Nodup := by
  induction ys generalizing xs with
  | nil => exact hx
  | cons y ys ih =>
    rw [gain, List.foldl_cons, ← gain]
    split
    · exact ih hx
    · next hy => exact ih (hx.append (List.nodup_singleton y) (by simpa using hy))

end Gain

variable {lists : ClassLists} {IsElement : String → Prop}

theorem Of.compose (h : lists.Of IsElement) {name : String} {elements : List String}
    (he : ∀ element ∈ elements, IsElement element) : (lists.compose name elements).Of IsElement := by
  intro other list hl
  rw [ClassLists.compose] at hl
  split at hl
  · obtain rfl := Option.some.inj hl
    have hown : ((lists name).getD []).Nodup ∧ ∀ e ∈ (lists name).getD [], IsElement e := by
      cases hn : lists name with
      | none => exact ⟨List.nodup_nil, nofun⟩
      | some own => exact h _ _ hn
    exact ⟨nodup_gain hown.1 elements, fun e hm => (mem_gain.1 hm).elim (hown.2 e) (he e)⟩
  · exact h _ _ hl

theorem Of.elements? (h : lists.Of IsElement) {names elements : List String}
    (he : lists.elements? names = some elements) : ∀ element ∈ elements, IsElement element := by
  induction names generalizing elements with
  | nil =>
    obtain rfl := Option.some.inj he
    nofun
  | cons name names ih =>
    rw [ClassLists.elements?, List.mapM_cons, Option.map_eq_some_iff] at he
    obtain ⟨all, hall, rfl⟩ := he
    simp only [Option.bind_eq_bind, Option.bind_eq_some_iff] at hall
    obtain ⟨list, hl, others, ho, hp⟩ := hall
    obtain rfl := Option.some.inj hp
    have hothers : ∀ element ∈ others.flatten, IsElement element :=
      ih (by rw [ClassLists.elements?, ho]; rfl)
    intro element hm
    rw [List.flatten_cons, List.mem_append] at hm
    exact hm.elim ((h _ _ hl).2 element) (hothers element)

end ClassLists

namespace TokenMap

/-- What the classes of a map stand for when their identifiers are split. -/
def lists (m : TokenMap) : ClassLists := fun name => (m.get? name).map Text.words

theorem get?_insert (m : TokenMap) (name identifiers other : String) :
    (m.insert name identifiers).get? other =
      (m.get? other).or (if other = name then some identifiers else none) := by
  unfold insert
  split
  · next hc =>
    by_cases ho : other = name
    · subst ho
      rw [contains, Option.isSome_iff_exists] at hc
      obtain ⟨value, hv⟩ := hc
      rw [hv, Option.or]
    · rw [if_neg ho, Option.or_none]
  · rw [get?, List.lookup_append, List.lookup_singleton]
    simp [get?, beq_iff_eq]

theorem lookup_cons_eq_ite (key value other : String) (entries : List (String × String)) :
    ((key, value) :: entries).lookup other =
      if other = key then some value else entries.lookup other := by
  rw [List.lookup_cons]
  by_cases ho : other = key
  · simp [ho]
  · rw [if_neg ho, beq_eq_false_iff_ne.2 ho]

theorem lookup_change (name other : String) (f : String → String)
    (entries : List (String × String)) :
    (change name f entries).lookup other =
      if other = name then some (f ((entries.lookup name).getD "")) else entries.lookup other := by
  induction entries with
  | nil => rw [change, lookup_cons_eq_ite]; rfl
  | cons entry entries ih =>
    obtain ⟨key, value⟩ := entry
    rw [change]
    by_cases hk : key = name
    · subst hk
      by_cases ho : other = key <;> simp [lookup_cons_eq_ite, ho]
    · simp only [if_neg hk, lookup_cons_eq_ite, ih, if_neg (Ne.symm hk)]
      by_cases ho : other = key
      · subst ho
        simp [hk]
      · rw [if_neg ho, if_neg ho]

theorem get?_compose (m : TokenMap) (name : String) (identifiers : List String) (other : String) :
    (m.compose name identifiers).get? other =
      if other = name then some (addWords ((m.get? name).getD "") identifiers)
      else m.get? other :=
  lookup_change ..

theorem words_addWord (identifiers : String) {word : String} (hw : Text.IsWord word) :
    Text.words (addWord identifiers word) =
      if word ∈ Text.words identifiers then Text.words identifiers
      else Text.words identifiers ++ [word] := by
  simp only [addWord, List.contains_iff_mem]
  split
  · rfl
  · split
    · next hempty =>
      obtain rfl := String.isEmpty_iff.1 hempty
      rw [hw.words]
      rfl
    · rw [Text.words_append_blank, hw.words]

theorem words_foldl_addWord (identifiers : String) {words : List String}
    (hw : ∀ word ∈ words, Text.IsWord word) :
    Text.words (words.foldl addWord identifiers) =
      ClassLists.gain (Text.words identifiers) words := by
  induction words generalizing identifiers with
  | nil => rfl
  | cons word words ih =>
    rw [List.foldl_cons, ih _ fun w hm => hw w (List.mem_cons_of_mem _ hm),
      words_addWord _ (hw word (List.mem_cons_self ..))]
    rfl

theorem words_addWords (identifiers : String) (others : List String) :
    Text.words (addWords identifiers others) =
      ClassLists.gain (Text.words identifiers) (others.flatMap Text.words) := by
  refine words_foldl_addWord identifiers fun word hw => ?_
  obtain ⟨other, _, hm⟩ := List.mem_flatMap.1 hw
  exact Text.isWord_of_mem_words hm

theorem lists_compose (m : TokenMap) (name : String) (identifiers : List String) :
    (m.compose name identifiers).lists =
      m.lists.compose name (identifiers.flatMap Text.words) := by
  funext other
  unfold lists ClassLists.compose
  simp only [get?_compose]
  split
  · rw [Option.map_some, words_addWords]
    cases m.get? name <;> rfl
  · rfl

theorem elements?_lists {m : TokenMap} {names identifiers : List String}
    (h : m.identifiers? names = some identifiers) :
    m.lists.elements? names = some (identifiers.flatMap Text.words) := by
  induction names generalizing identifiers with
  | nil =>
    obtain rfl := Option.some.inj h
    rfl
  | cons name names ih =>
    cases hv : m.get? (Identifier.unescape name) with
    | none => simp [identifiers?, hv] at h
    | some value =>
      cases hi : m.identifiers? names with
      | none =>
        simp only [identifiers?] at hi
        simp [identifiers?, hv, hi] at h
      | some values =>
        have he := ih hi
        obtain rfl : value :: values = identifiers := by
          simp only [identifiers?] at h hi
          simpa [hv, hi] using h
        rw [ClassLists.elements?, Option.map_eq_some_iff] at he ⊢
        obtain ⟨lists, hl, hf⟩ := he
        refine ⟨Text.words value :: lists, ?_, by simp [hf]⟩
        simp [TokenMap.lists, hv] at hl ⊢
        simp [hl]

theorem lists_declared {lib : Library} {p : Path} {names : List String}
    (hw : ∀ name ∈ names, Text.IsWord (lib.name name p)) :
    (lib.declared p names).lists = ClassLists.declared lib p names := by
  -- The first spelling wins on both sides: `insert` keeps an entry, `or` keeps the left one.
  have hfold (m : TokenMap) (name : String) : (names.foldl (fun tokens spelling =>
      tokens.insert (Identifier.unescape spelling) (lib.name spelling p)) m).lists name =
        (m.lists name).or (ClassLists.declared lib p names name) := by
    induction names generalizing m with
    | nil => rw [List.foldl_nil, ClassLists.declared, List.find?_nil, Option.map_none, Option.or_none]
    | cons spelling names ih =>
      have hi := ih (fun n hn => hw n (List.mem_cons_of_mem _ hn))
        (m.insert (Identifier.unescape spelling) (lib.name spelling p))
      have hs := (hw spelling (List.mem_cons_self ..)).words
      rw [List.foldl_cons, hi]
      simp only [lists, get?_insert, ClassLists.declared, List.find?_cons]
      by_cases hn : name = Identifier.unescape spelling
      · subst hn
        cases m.get? (Identifier.unescape spelling) <;> simp [hs]
      · have hb : (Identifier.unescape spelling == name) = false :=
          beq_eq_false_iff_ne.2 (Ne.symm hn)
        rw [if_neg hn, Option.or_none, hb]
  funext name
  exact hfold .empty name

end TokenMap

namespace Library

/-- What classes come to stand for by compositions, where each takes its elements from the lists of
the stylesheet that it names, under some spelling of its path. -/
inductive Lists (lib : Library) : ClassLists → List Composition → ClassLists → Prop
  | finished {lists} : Lists lib lists [] lists
  | everywhere {lists localAlias names rest lists'}
      (h : Lists lib (lists.compose (Identifier.unescape localAlias)
        (names.map Identifier.unescape)) rest lists') :
      Lists lib lists (⟨localAlias, names, .everywhere⟩ :: rest) lists'
  | here {lists localAlias names elements rest lists'} (he : lists.elements? names = some elements)
      (h : Lists lib (lists.compose (Identifier.unescape localAlias) elements) rest lists') :
      Lists lib lists (⟨localAlias, names, .here⟩ :: rest) lists'
  | file {lists localAlias names specifier target q sheet given elements rest lists'}
      (hl : q.location = target.location) (hr : lib.read q = .ok sheet)
      (hq : Lists lib (.declared lib q sheet.localNames) sheet.compositions given)
      (he : given.elements? names = some elements)
      (h : Lists lib (lists.compose (Identifier.unescape localAlias) elements) rest lists') :
      Lists lib lists (⟨localAlias, names, .file specifier target⟩ :: rest) lists'

def WordsEverywhere (compositions : List Composition) : Prop :=
  ∀ c ∈ compositions, c.source = .everywhere → ∀ name ∈ c.tokens,
    Text.IsWord (Identifier.unescape name)

/-- A library in which all names are single words, those that are public already among them. -/
structure Unbroken (lib : Library) : Prop where
  declared {p : Path} {sheet : Stylesheet} : lib.read p = .ok sheet →
    ∀ name ∈ sheet.localNames, Text.IsWord (lib.name name p)
  everywhere {p : Path} {sheet : Stylesheet} : lib.read p = .ok sheet →
    WordsEverywhere sheet.compositions

def Listed (lib : Library) : Goal → TokenMap → Prop
  | .request p, m => ∃ sheet, lib.read p = .ok sheet ∧
      lib.Lists (.declared lib p sheet.localNames) sheet.compositions m.lists
  | .compose _ tokens rest, m => WordsEverywhere rest → lib.Lists tokens.lists rest m.lists

variable {lib : Library}

theorem Yields.listed (hu : lib.Unbroken) {goal : Goal} {m : TokenMap}
    (h : lib.Yields Eq goal m) : lib.Listed goal m := by
  induction h with
  | request hr hd _ ih =>
    subst hd
    exact ⟨_, hr, TokenMap.lists_declared (hu.declared hr) ▸ ih (hu.everywhere hr)⟩
  | finished => exact fun _ => .finished
  | @everywhere p tokens localAlias names rest m _ ih =>
    intro hw
    have hwords : ∀ name ∈ names.map Identifier.unescape, Text.IsWord name := by
      rw [List.forall_mem_map]
      exact hw _ (List.mem_cons_self ..) rfl
    have hi := ih fun c hc => hw c (List.mem_cons_of_mem _ hc)
    rw [TokenMap.lists_compose, Text.flatMap_words hwords] at hi
    exact .everywhere hi
  | here hi _ ih =>
    intro hw
    have hrest := ih fun c hc => hw c (List.mem_cons_of_mem _ hc)
    rw [TokenMap.lists_compose] at hrest
    exact .here (TokenMap.elements?_lists hi) hrest
  | file hl _ hi _ ihq ih =>
    intro hw
    obtain ⟨sheet, hr, hlists⟩ := ihq
    have hrest := ih fun c hc => hw c (List.mem_cons_of_mem _ hc)
    rw [TokenMap.lists_compose] at hrest
    exact .file hl hr hlists (TokenMap.elements?_lists hi) hrest

/-- Whether something is a whole name: that of a class of some stylesheet, or one that some global
composition names. -/
def IsName (lib : Library) (name : String) : Prop :=
  (∃ p sheet, lib.read p = .ok sheet ∧ ∃ spelling ∈ sheet.localNames, name = lib.name spelling p) ∨
    ∃ p sheet, lib.read p = .ok sheet ∧ ∃ c ∈ sheet.compositions, c.source = .everywhere ∧
      ∃ spelling ∈ c.tokens, name = Identifier.unescape spelling

theorem declared_of {p : Path} {sheet : Stylesheet} (hr : lib.read p = .ok sheet) :
    (ClassLists.declared lib p sheet.localNames).Of lib.IsName := by
  intro name list hl
  rw [ClassLists.declared, Option.map_eq_some_iff] at hl
  obtain ⟨spelling, hs, rfl⟩ := hl
  refine ⟨List.nodup_singleton _, fun element hm => .inl ⟨p, sheet, hr, spelling, ?_, ?_⟩⟩
  · exact List.mem_of_find?_eq_some hs
  · exact List.mem_singleton.1 hm

namespace Lists

variable {lists lists' : ClassLists} {rest : List Composition}

theorem of_isName (h : lib.Lists lists rest lists') (hl : lists.Of lib.IsName)
    (hw : ∀ c ∈ rest, c.source = .everywhere → ∀ spelling ∈ c.tokens,
      lib.IsName (Identifier.unescape spelling)) : lists'.Of lib.IsName := by
  induction h with
  | finished => exact hl
  | everywhere _ ih =>
    refine ih (hl.compose ?_) fun c hc => hw c (List.mem_cons_of_mem _ hc)
    rw [List.forall_mem_map]
    exact hw _ (List.mem_cons_self ..) rfl
  | here he _ ih =>
    exact ih (hl.compose (hl.elements? he)) fun c hc => hw c (List.mem_cons_of_mem _ hc)
  | file _ hr _ he _ ihq ih =>
    have hgiven := ihq (declared_of hr) fun c hc hs spelling hm =>
      .inr ⟨_, _, hr, c, hc, hs, spelling, hm, rfl⟩
    exact ih (hl.compose (hgiven.elements? he)) fun c hc => hw c (List.mem_cons_of_mem _ hc)

theorem prefixes (h : lib.Lists lists rest lists') {name : String} {list : List String}
    (hl : lists name = some list) : ∃ list', lists' name = some list' ∧ list <+: list' := by
  have hcompose {lists : ClassLists} {list : List String} (hl : lists name = some list)
      (receiver : String) (elements : List String) :
      ∃ list', lists.compose receiver elements name = some list' ∧ list <+: list' := by
    unfold ClassLists.compose
    split
    · next hn => exact ⟨_, rfl, by rw [← hn, hl]; exact ClassLists.prefix_gain ..⟩
    · exact ⟨list, hl, List.prefix_rfl⟩
  induction h generalizing list with
  | finished => exact ⟨list, hl, List.prefix_rfl⟩
  | everywhere _ ih | here _ _ ih | file _ _ _ _ _ _ ih =>
    obtain ⟨between, hb, hp⟩ := hcompose hl _ _
    obtain ⟨list', hl', hp'⟩ := ih hb
    exact ⟨list', hl', hp.trans hp'⟩

end Lists

end Library

namespace Naming

def package? (n : Naming) (name? : Path → Option String) (p : Path) : Option Package :=
  if n.needsPackage then Package.find name? p else none

def text (n : Naming) (t : Template) (name? : Path → Option String) (className : String) (p : Path) :
    String :=
  n.expand t (n.package? name? p) (Identifier.unescape className) p

variable {n : Naming} {t : Template}

theorem words_scopedName (hn : n.strategy = .template t) (name? : Path → Option String)
    (className : String) (p : Path) :
    Text.words (n.scopedName name? className p) = [n.scopedName name? className p] ↔
      Identifier.Unspaced (n.text t name? className p) := by
  rw [Text.words_eq_singleton_iff, ← Identifier.isWord_escapeLocal]
  simp only [scopedName, identifier, hn, text, package?]

end Naming

namespace Session

/-- Where the template makes something without white space of every class, and global compositions
are of single words, the identifiers of a class split into what it stands for: its own name and then
those that it is given, each once, and all of them whole. -/
theorem run_class_lists (t : Template) (hash : HashSettings) (root : Path)
    (regex : Option Regex.Matcher) (name? : Path → Option String)
    (hmanifests : ∀ d e : Path, d.location = e.location → name? d = name? e)
    (read : Path → Except Error Stylesheet) (moves : List Move) :
    let n : Naming := ⟨.template t, hash, root, regex⟩
    let lib := n.library read name?
    let s := (System.initial empty).run (host read n name?) moves
    (∀ className p value, n.scopedName name? className p ∈ Text.words value →
      Identifier.Unspaced (n.text t name? className p)) ∧
    ((∀ p sheet, read p = .ok sheet → (∀ className ∈ sheet.localNames,
        Identifier.Unspaced (n.text t name? className p)) ∧
        Library.WordsEverywhere sheet.compositions) →
      ∀ id p finished, (Move.roots moves)[id]? = some p → s.answer? id = some (.ok finished) →
        ∃ q sheet, q.location = p.location ∧ read q = .ok sheet ∧
          lib.Lists (.declared lib q sheet.localNames) sheet.compositions finished.map.lists ∧
          ∀ className value, finished.map.get? className = some value →
            (Text.words value).Nodup ∧ (∀ name ∈ Text.words value, lib.IsName name) ∧
            ∀ own, ClassLists.declared lib q sheet.localNames className = some own →
              own <+: Text.words value) := by
  intro n lib s
  refine ⟨fun className p value hm => ?_, fun hwhole id p finished hr ha => ?_⟩
  · exact (n.words_scopedName rfl name? className p).1 (Text.isWord_of_mem_words hm).words
  have hsourced : System.Sourced lib Eq (fun s : Session => s.memo.Sound name?) (Move.roots moves) s :=
    System.Sourced.run (host_serves read n hmanifests) (Package.Memo.sound_nil name?) moves
  have hunbroken : lib.Unbroken :=
    { declared := fun {p sheet} hread className hc =>
        Text.words_eq_singleton_iff.1
          ((n.words_scopedName rfl name? className p).2 ((hwhole p sheet hread).1 className hc))
      everywhere := fun {p sheet} hread => (hwhole p sheet hread).2 }
  obtain ⟨q, hq, hyields⟩ := hsourced.answer hr ha
  obtain ⟨sheet, hread, hlists⟩ := hyields.listed hunbroken
  have hof := hlists.of_isName (Library.declared_of hread) fun c hc hs spelling hm =>
    .inr ⟨q, sheet, hread, c, hc, hs, spelling, hm, rfl⟩
  refine ⟨q, sheet, hq, hread, hlists, fun className value hv => ?_⟩
  have hl : finished.map.lists className = some (Text.words value) := by
    rw [TokenMap.lists, hv, Option.map_some]
  obtain ⟨hnodup, hnames⟩ := hof _ _ hl
  refine ⟨hnodup, hnames, fun own ho => ?_⟩
  obtain ⟨list, hlist, hp⟩ := hlists.prefixes ho
  obtain rfl := Option.some.inj (hlist.symm.trans hl)
  exact hp

theorem run_class_lists_twoStylesheets :
    let n : Naming := ⟨.template ⟨"[local]", [.localName]⟩, namingByClass.hash, ⟨"/p"⟩, none⟩
    let read := twoStylesheets ⟨"/p/a.css"⟩
    let lib := n.library read fun _ => none
    let s := (System.initial empty).run (host read n fun _ => none) twoMoves
    s.answer? 0 = some (.ok ⟨1, ⟨[("b", "b a")]⟩⟩) ∧
      (∀ p sheet, read p = .ok sheet → (∀ className ∈ sheet.localNames,
        Identifier.Unspaced (n.text ⟨"[local]", [.localName]⟩ (fun _ => none) className p)) ∧
        Library.WordsEverywhere sheet.compositions) ∧
      ∃ q sheet, q.location = (⟨"/p/b.css"⟩ : Path).location ∧ read q = .ok sheet ∧
        lib.Lists (.declared lib q sheet.localNames) sheet.compositions
          (⟨[("b", "b a")]⟩ : TokenMap).lists ∧ lib.IsName "b" ∧ lib.IsName "a" := by
  intro n read lib s
  have hwhole (p : Path) (sheet : Stylesheet) (hr : read p = .ok sheet) :
      (∀ className ∈ sheet.localNames,
        Identifier.Unspaced (n.text ⟨"[local]", [.localName]⟩ (fun _ => none) className p)) ∧
        Library.WordsEverywhere sheet.compositions := by
    have ha : n.text ⟨"[local]", [.localName]⟩ (fun _ => none) "a" p = "a" := by
      change String.join [Identifier.unescape "a"] = "a"
      decide +kernel
    have hb : n.text ⟨"[local]", [.localName]⟩ (fun _ => none) "b" p = "b" := by
      change String.join [Identifier.unescape "b"] = "b"
      decide +kernel
    simp only [read, twoStylesheets, stylesheetsWith] at hr
    split at hr
    · obtain rfl := Except.ok.inj hr
      simp only [List.forall_mem_singleton, ha]
      exact ⟨by decide +kernel, fun c hc => absurd hc List.not_mem_nil⟩
    · split at hr
      · obtain rfl := Except.ok.inj hr
        simp only [List.forall_mem_singleton, hb]
        refine ⟨by decide +kernel, fun c hc hs => ?_⟩
        obtain rfl := List.mem_singleton.1 hc
        cases hs
      · cases hr
  have ha : s.answer? 0 = some (.ok ⟨1, ⟨[("b", "b a")]⟩⟩) := by decide +kernel
  obtain ⟨_, hlists⟩ := run_class_lists ⟨"[local]", [.localName]⟩ namingByClass.hash ⟨"/p"⟩ none
    (fun _ => none) (fun _ _ _ => rfl) read twoMoves
  obtain ⟨q, sheet, hq, hr, hl, hvalues⟩ := hlists hwhole 0 ⟨"/p/b.css"⟩ _ rfl ha
  have hwords : Text.words "b a" = ["b", "a"] := by decide +kernel
  obtain ⟨_, hnames, _⟩ := hvalues "b" "b a" rfl
  rw [hwords, List.forall_mem_cons, List.forall_mem_singleton] at hnames
  exact ⟨ha, hwhole, q, sheet, hq, hr, hl, hnames⟩

/-- In a directory with a blank in its name, the names of two classes both begin with its first
half. What `x` has therefore falls apart into three pieces, of which none is a name, and the first
half of the name that it is given is taken for one that it has already. -/
theorem run_class_lists_blankDirectory :
    let p : Path := ⟨"/p/my dir/a.css"⟩
    let n : Naming := ⟨.template ⟨"[path][local]", [.path, .localName]⟩, namingByClass.hash, ⟨"/p"⟩,
      none⟩
    let read : Path → Except Error Stylesheet := fun _ => .ok ⟨["y", "x"], [⟨"x", ["y"], .here⟩]⟩
    n.scopedName (fun _ => none) "y" p = "my\\ dir-y" ∧
      n.scopedName (fun _ => none) "x" p = "my\\ dir-x" ∧
      (∃ enough, ∀ fuel ≥ enough, ∃ answer s',
        (System.initial empty).resolveAt (host read n fun _ => none) fuel p = (some answer, s') ∧
          answer.map FinishedMap.map =
            .ok ⟨[("y", "my\\ dir-y"), ("x", "my\\ dir-x dir-y")]⟩) ∧
      Text.words "my\\ dir-x dir-y" = ["my\\", "dir-x", "dir-y"] := by
  intro p n read
  have hy : n.scopedName (fun _ => none) "y" p = "my\\ dir-y" := by decide +kernel
  have hx : n.scopedName (fun _ => none) "x" p = "my\\ dir-x" := by decide +kernel
  refine ⟨hy, hx, ?_, by decide +kernel⟩
  have hco : (n.library read fun _ => none).Coherent {p} :=
    { target_mem := fun _ hr hq => by cases hr; cases hq
      read_eq := fun _ _ _ hr => hr }
  have hu : (n.library read fun _ => none).Uniform {p} Eq :=
    hco.uniform fun _ q hq q' hq' _ => by rw [Set.mem_singleton_iff.1 hq, Set.mem_singleton_iff.1 hq']
  have hdeclared : (n.library read fun _ => none).declared p ["y", "x"] =
      ⟨[("y", "my\\ dir-y"), ("x", "my\\ dir-x")]⟩ := by
    have hkeys : Identifier.unescape "y" = "y" ∧ Identifier.unescape "x" = "x" := by decide +kernel
    simp only [Library.declared, List.foldl_cons, List.foldl_nil, Naming.library, hkeys, hx, hy]
    decide +kernel
  have he : (n.library read fun _ => none).Evaluates [] (.request p)
      (.ok ⟨[("y", "my\\ dir-y"), ("x", "my\\ dir-x dir-y")]⟩) := by
    refine .readable List.not_mem_nil rfl ?_
    rw [hdeclared]
    have hidentifiers : (⟨[("y", "my\\ dir-y"), ("x", "my\\ dir-x")]⟩ : TokenMap).identifiers? ["y"] =
        some ["my\\ dir-y"] := by decide +kernel
    refine .here hidentifiers ?_
    have hcompose : (⟨[("y", "my\\ dir-y"), ("x", "my\\ dir-x")]⟩ : TokenMap).compose
        (Identifier.unescape "x") ["my\\ dir-y"] =
        ⟨[("y", "my\\ dir-y"), ("x", "my\\ dir-x dir-y")]⟩ := by decide +kernel
    rw [hcompose]
    exact .finished
  have hrested : System.Rested (n.library read fun _ => none) {p}
    (fun s : Session => s.memo.Sound fun _ => none) (System.initial empty) :=
    System.rested_initial (Package.Memo.sound_nil _)
  exact hrested.exists_resolveAt hu (host_serves read n fun _ _ _ => rfl) (Set.mem_singleton p) he

end Session

end CssModules
