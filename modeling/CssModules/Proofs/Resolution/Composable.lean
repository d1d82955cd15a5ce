import CssModules.Proofs.Path.Join
import CssModules.Proofs.Resolution.Edits
import CssModules.Proofs.Stylesheet.ComposingRules

namespace CssModules

open Relation

def Stylesheet.rewritten (read : Path → Except Error Stylesheet) (p : Path) (text : String) :
    Path → Except Error Stylesheet :=
  fun q => if q.same p then parse p text else read q

theorem Composition.IsPlainName.unescape_eq {y : String} (h : IsPlainName y.toList) :
    Identifier.unescape y = y := by
  apply Identifier.unescape_of_not_mem
  intro hmem
  have hplain := h.isPlain _ hmem
  cases hplain

namespace Library

variable {lib lib' : Library} {files : Set Path} {p q target : Path} {m : TokenMap}
  {sheet : Stylesheet} {y name identifiers specifier : String}

theorem evaluates_sibling (hc : lib.Coherent files) (hl : lib.AlikeBut lib' q.location)
    (ht : target ∈ files) (h : lib.Evaluates [] (.request target) (.ok m))
    (hn : ¬ReflTransGen (lib.Composes files) target.location q.location)
    (hr : lib'.read q = .ok ⟨[y], [⟨y, [name], .file specifier target⟩]⟩)
    (hi : m.get? (Identifier.unescape name) = some identifiers) :
    ∃ m', lib'.Evaluates [] (.request q) (.ok m') ∧ m'.get? (Identifier.unescape y) =
      some (TokenMap.addWords (lib.name y q) [identifiers]) := by
  have hinside : lib.Evaluates [q] (.request target) (.ok m) :=
    h.rechain hc rfl (by simpa using ht) (by simpa using hn)
  have htarget : lib'.Evaluates [q] (.request target) (.ok m) :=
    hinside.alikeBut hc hl (by simpa using ht) (by simpa using hn)
  have hidentifiers : m.identifiers? [name] = some [identifiers] := by
    simp [TokenMap.identifiers?, hi]
  have hown : (lib.declared q [y]).get? (Identifier.unescape y) = some (lib.name y q) := by
    rw [declared, List.foldl_cons, List.foldl_nil, TokenMap.get?_insert, if_pos rfl]
    rfl
  refine ⟨_, .readable (by simp) hr (.file htarget hidentifiers .finished), ?_⟩
  rw [TokenMap.get?_compose, if_pos rfl, hl.declared, hown, Option.getD_some]

theorem evaluates_appended (hc : lib.Coherent files) (hl : lib.AlikeBut lib' p.location)
    (hp : p ∈ files) (h : lib.Evaluates [] (.request p) (.ok m)) (hr : lib.read p = .ok sheet)
    (hr' : lib'.read p = .ok ⟨sheet.localNames ++ [y], sheet.compositions ++ [⟨y, [name], .here⟩]⟩)
    (hi : m.get? (Identifier.unescape name) = some identifiers)
    (hy : m.get? (Identifier.unescape y) = none) :
    ∃ m', lib'.Evaluates [] (.request p) (.ok m') ∧ m'.get? (Identifier.unescape y) =
      some (TokenMap.addWords (lib.name y p) [identifiers]) := by
  have hcycle := h.not_cyclic hc hp
  cases h with
  | readable _ hread h =>
    cases hr.symm.trans hread
    -- Nothing that the stylesheet composes from comes back to it, so all of that stays as it was.
    have hframe := h.alikeBut hc hl (fun t ht => hc.target_mem hp hr ht)
      fun t ht hreach => hcycle (.head' (.of_read hp hr ht) hreach)
    have hfresh : (lib.declared p sheet.localNames).get? (Identifier.unescape y) = none := by
      by_contra hsome
      have hcontains := h.contains rfl rfl (Option.isSome_iff_ne_none.2 hsome)
      rw [TokenMap.contains, hy] at hcontains
      cases hcontains
    obtain ⟨m', h', hadds⟩ := hframe.adds rfl rfl hy (TokenMap.adds_insert hfresh (lib.name y p))
    have hidentifiers : m.identifiers? [name] = some [identifiers] := by
      simp [TokenMap.identifiers?, hi]
    have hcompose : lib'.Evaluates [p] (.compose p m' [⟨y, [name], .here⟩])
        (.ok (m'.compose (Identifier.unescape y) [identifiers])) :=
      .here (hadds.identifiers? hidentifiers) .finished
    have hwhole := h'.append hcompose
    rw [← declared_append, ← hl.declared] at hwhole
    refine ⟨_, .readable (by simp) hr' hwhole, ?_⟩
    rw [TokenMap.get?_compose, if_pos rfl, hadds.own, Option.getD_some]

theorem alikeBut_rewritten (n : Naming) (read : Path → Except Error Stylesheet)
    (name? : Path → Option String) (p : Path) (text : String) :
    (n.library read name?).AlikeBut (n.library (Stylesheet.rewritten read p text) name?)
      p.location where
  read {q} hq := by
    have hsame : q.same p = false := beq_eq_false_iff_ne.2 hq
    simp [Naming.library, Stylesheet.rewritten, hsame]
  name := rfl

theorem read_rewritten {read : Path → Except Error Stylesheet} {text : String}
    (h : q.location = p.location) :
    Stylesheet.rewritten read p text q = Stylesheet.parse p text := by
  have hsame : q.same p = true := beq_iff_eq.2 h
  rw [Stylesheet.rewritten, if_pos hsame]

theorem Coherent.rewritten {n : Naming} {read : Path → Except Error Stylesheet}
    {name? : Path → Option String} {text : String} (hc : (n.library read name?).Coherent files)
    (hparse : Stylesheet.parse p text = .ok sheet)
    (ht : ∀ t ∈ Composition.targets sheet.compositions, t ∈ files) :
    (n.library (Stylesheet.rewritten read p text) name?).Coherent files := by
  have halike := alikeBut_rewritten n read name? p text
  have hread {q : Path} (hq : q.location = p.location) :
      (n.library (Stylesheet.rewritten read p text) name?).read q = .ok sheet :=
    (read_rewritten hq).trans hparse
  constructor
  · intro q t other hq hr htarget
    by_cases hl : q.location = p.location
    · cases (hread hl).symm.trans hr
      exact ht t htarget
    · rw [halike.read hl] at hr
      exact hc.target_mem hq hr htarget
  · intro q q' other hq hq' he hr
    by_cases hl : q.location = p.location
    · rwa [hread (he ▸ hl), ← hread hl]
    · rw [halike.read hl] at hr
      rw [halike.read (he ▸ hl)]
      exact hc.read_eq hq hq' he hr

end Library

namespace Session

open CssModules.Composition Stylesheet

variable {read : Path → Except Error Stylesheet} {n : Naming} {name? : Path → Option String}
  {files : Set Path} {p : Path} {m : TokenMap} {className own identifiers : String}

/-- Whether every resolution of a stylesheet, whatever has been resolved before it, has for one of
its classes the words of `own` and behind them those of `identifiers` that are not there yet. -/
def GivesOn (h : Host Session) (files : Set Path) (p : Path)
    (className own identifiers : String) : Prop :=
  ∀ s, System.Reached h files empty s → ∃ enough, ∀ fuel ≥ enough, ∃ finished s' value,
    s.resolveAt h fuel p = (some (.ok finished), s') ∧ finished.map.get? className = some value ∧
      Text.words value = ClassLists.gain (Text.words own) (Text.words identifiers)

theorem givesOn_of_evaluates (hu : (n.library read name?).Uniform files Eq)
    (hmanifests : ∀ d e : Path, d.location = e.location → name? d = name? e) (hp : p ∈ files)
    (h : (n.library read name?).Evaluates [] (.request p) (.ok m))
    (hvalue : m.get? className = some (TokenMap.addWords own [identifiers])) :
    GivesOn (host read n name?) files p className own identifiers := by
  intro s hs
  have hv := host_serves read n hmanifests
  have hrest := hs.rested hu hv (Package.Memo.sound_nil name?)
  obtain ⟨enough, hn⟩ := hrest.exists_resolveAt hu hv hp h
  have hwords : Text.words (TokenMap.addWords own [identifiers]) =
      ClassLists.gain (Text.words own) (Text.words identifiers) := by
    rw [TokenMap.words_addWords, List.flatMap_singleton]
  use enough
  intro fuel hfuel
  obtain ⟨answer, s', hr, hmap⟩ := hn fuel hfuel
  cases answer with
  | error e => cases hmap
  | ok finished =>
    obtain rfl := Except.ok.inj hmap
    exact ⟨finished, s', _, hr, hvalue, hwords⟩

section Rewritten

variable {q : Path} {text file S y : String} {sheet : Stylesheet}

/-- Whether a stylesheet at `q` can name the one at `p` in double quotes by its file alone. -/
structure NamesBeside (q p : Path) (file : String) : Prop where
  fileName : p.fileName? = some file
  directory : q.parent?.map Path.location = p.parent?.map Path.location
  quotable : ∀ c ∈ file.toList, c ≠ '"' ∧ c ≠ '\\' ∧ c ≠ '\n'
  separate : ¬HoldsFrom ("./" ++ file).toList

variable (hread : (n.library read name?).Coherent files)
  (hmanifests : ∀ d e : Path, d.location = e.location → name? d = name? e)
  (hnames : ∀ className, ∀ p ∈ files, ∀ q ∈ files, p.location = q.location →
    n.scopedName name? className p = n.scopedName name? className q)
  (hp : p ∈ files) (h : (n.library read name?).Evaluates [] (.request p) (.ok m))
  (hS : Selector.Name S.toList) (htoken : IsComposable S)
  (hi : m.get? (Identifier.unescape S) = some identifiers) (hy : IsPlainName y.toList)

include hread hmanifests hnames hp h hS htoken hi hy

theorem givesOn_sibling (habsolute : p.isAbsolute = true) (hnormal : p.normalize = p)
    (hq : q ∈ files) (hbeside : NamesBeside q p file)
    (hreach : ¬ReflTransGen ((n.library read name?).Composes files) p.location q.location) :
    GivesOn (host (rewritten read q (composingRule y (siblingValue S file))) n name?) files q y
      (n.scopedName name? y q) identifiers := by
  have hsource : fileSource q ("./" ++ file) = .file ("./" ++ file) p := by
    rw [fileSource, Path.normalize_join_fileName habsolute hbeside.fileName hbeside.directory,
      hnormal]
  have hrule := parse_sibling q hy hS htoken.isToken hbeside.quotable hbeside.separate
  rw [hsource] at hrule
  rw [← htoken.unescape_eq] at hi
  have halike := Library.alikeBut_rewritten n read name? q (composingRule y (siblingValue S file))
  have hco := hread.rewritten hrule (by simpa using hp)
  obtain ⟨m', hm', hvalue⟩ := Library.evaluates_sibling hread halike hp h hreach
    ((Library.read_rewritten rfl).trans hrule) hi
  rw [hy.unescape_eq] at hvalue
  exact givesOn_of_evaluates (hco.uniform hnames) hmanifests hq hm' hvalue

theorem givesOn_appended (hparse : Stylesheet.parse p text = .ok sheet)
    (hsheet : read p = .ok sheet) (hend : EndsDelimited text) (hnew : y ∉ sheet.localNames)
    (hfresh : m.get? y = none) :
    GivesOn (host (rewritten read p (text ++ composingRule y S)) n name?) files p y
      (n.scopedName name? y p) identifiers := by
  have hrule := parse_append hparse hend hy hnew hS htoken.isToken
  have halike := Library.alikeBut_rewritten n read name? p (text ++ composingRule y S)
  have hco := hread.rewritten hrule fun t ht => by
    rw [Composition.targets_append] at ht
    exact hread.target_mem hp hsheet (by simpa using ht)
  have hunescape := hy.unescape_eq
  rw [← htoken.unescape_eq] at hi
  rw [← hunescape] at hfresh
  obtain ⟨m', hm', hvalue⟩ := Library.evaluates_appended hread halike hp h hsheet
    ((Library.read_rewritten rfl).trans hrule) hi hfresh
  rw [hunescape] at hvalue
  exact givesOn_of_evaluates (hco.uniform hnames) hmanifests hp hm' hvalue

end Rewritten

/-- A class without blanks and commas in its spelling, but for blanks at the end that make no
difference, can be composed: beside its stylesheet and in a new class at the end of that. A class
with any other spelling is none of the names of any composition. -/
theorem declared_composable (read : Path → Except Error Stylesheet) (n : Naming)
    (name? : Path → Option String) (files : Set Path)
    (hmanifests : ∀ d e : Path, d.location = e.location → name? d = name? e)
    (hread : (n.library read name?).Coherent files)
    (hnames : ∀ className, ∀ p ∈ files, ∀ q ∈ files, p.location = q.location →
      n.scopedName name? className p = n.scopedName name? className q)
    {s s' : System Session} (hs : System.Reached (host read n name?) files empty s)
    {p : Path} (hp : p ∈ files) (habsolute : p.isAbsolute = true) (hnormal : p.normalize = p)
    {text : String} {sheet : Stylesheet} (hparse : Stylesheet.parse p text = .ok sheet)
    (hsheet : read p = .ok sheet) {fuel : ℕ} {finished : FinishedMap}
    (hr : s.resolveAt (host read n name?) fuel p = (some (.ok finished), s'))
    {S y : String} (hS : S ∈ sheet.localNames) (hy : IsPlainName y.toList) :
    ∃ identifiers, finished.map.get? (Identifier.unescape S) = some identifiers ∧
      (IsComposable S →
        (∀ file, ∀ q ∈ files, NamesBeside q p file →
          ¬ReflTransGen ((n.library read name?).Composes files) p.location q.location →
          GivesOn (host (rewritten read q (composingRule y (siblingValue S file))) n name?) files q
            y (n.scopedName name? y q) identifiers) ∧
        (EndsDelimited text → finished.map.get? y = none →
          GivesOn (host (rewritten read p (text ++ composingRule y S)) n name?) files p y
            (n.scopedName name? y p) identifiers)) ∧
      (¬IsComposable S → ∀ q source other, Stylesheet.parse q source = .ok other →
        ∀ c ∈ other.compositions, S ∉ c.tokens) := by
  have hu := hread.uniform hnames
  have hrest := hs.rested hu (host_serves read n hmanifests) (Package.Memo.sound_nil name?)
  have heval := hrest.evaluates_of_resolveAt hu (host_serves read n hmanifests) hp hr
  have hclass := (parse_proper hparse).classes S hS
  have hdeclared {name : String} (hname : name ∈ sheet.localNames) :
      finished.map.contains (Identifier.unescape name) = true := by
    cases heval with
    | readable _ hr' h =>
      cases hsheet.symm.trans hr'
      exact h.contains rfl rfl (Library.contains_declared hname)
  obtain ⟨identifiers, hi⟩ := Option.isSome_iff_exists.1 (hdeclared hS)
  refine ⟨identifiers, hi, ?_, ?_⟩
  · intro htoken
    constructor
    · intro file q hq hbeside hreach
      exact givesOn_sibling hread hmanifests hnames hp heval hclass.1 htoken hi hy habsolute hnormal
        hq hbeside hreach
    · intro hend hfresh
      have hnew : y ∉ sheet.localNames := by
        intro hmem
        have hcontains := hdeclared hmem
        rw [hy.unescape_eq, TokenMap.contains, hfresh] at hcontains
        cases hcontains
      exact givesOn_appended hread hmanifests hnames hp heval hclass.1 htoken hi hy hparse hsheet
        hend hnew hfresh
  · intro htoken q source other hother c hc hmem
    exact htoken ((parse_proper hother).tokens c hc S hmem).isComposable

def twoClasses : String := ".a\\:b, .\\31 0col \x7b \x7d"

def readTwoClasses : Path → Except Error Stylesheet :=
  rewritten (fun q => .error (.stylesheetNotFound q)) ⟨"/p/a.css"⟩ twoClasses

theorem parse_twoClasses :
    Stylesheet.parse ⟨"/p/a.css"⟩ twoClasses = .ok ⟨["a\\:b", "\\31 0col"], []⟩ := by
  decide +kernel

theorem readTwoClasses_eq_ok {q : Path} {sheet : Stylesheet} (h : readTwoClasses q = .ok sheet) :
    sheet = ⟨["a\\:b", "\\31 0col"], []⟩ := by
  rw [readTwoClasses, rewritten] at h
  split at h
  · exact Except.ok.inj (h.symm.trans parse_twoClasses)
  · cases h

theorem coherent_twoClasses (n : Naming) (name? : Path → Option String) :
    (n.library readTwoClasses name?).Coherent twoPaths where
  target_mem _ hr hq := by
    rw [readTwoClasses_eq_ok hr] at hq
    cases hq
  read_eq hp hq h hr := eq_of_location_twoPaths hp hq h ▸ hr

theorem endsDelimited_twoClasses : EndsDelimited twoClasses := by
  have hhead : ∀ c ∈ ".a".toList, isPlain c = true := List.all_eq_true.1 rfl
  have hmiddle : ∀ c ∈ "b, .".toList, isPlain c = true := List.all_eq_true.1 rfl
  have htail : ∀ c ∈ "1 0col ".toList, isPlain c = true := List.all_eq_true.1 rfl
  have hbody : ReadsTo ['\x7d'] " \x7d".toList [.other ' '] :=
    readsTo_plain (List.forall_mem_singleton.2 (by decide)) _
  have hdigit := (readsTo_plain htail _).append (.cons .opening hbody)
  have hcolon := (readsTo_plain hmiddle ('\\' :: '3' :: _)).append (.cons .pair hdigit)
  have htext := (readsTo_plain hhead ('\\' :: ':' :: _)).append (.cons .pair hcolon)
  exact ⟨_, .closing, [], htext.finish (.closing .nil), .inl rfl, nofun⟩

theorem declared_composable_twoClasses :
    let h := host readTwoClasses namingByClass fun _ => none
    let y := composingRule "y" (siblingValue "a\\:b" "a.css")
    IsComposable "a\\:b" ∧ ¬IsComposable "\\31 0col" ∧ ∃ finished s',
      (System.initial empty).resolveAt h 9 ⟨"/p/a.css"⟩ = (some (.ok finished), s') ∧
        finished.map.get? "a:b" = some "a\\:b" ∧
        GivesOn (host (rewritten readTwoClasses ⟨"/p/b.css"⟩ y) namingByClass fun _ => none)
          twoPaths ⟨"/p/b.css"⟩ "y" "y" "a\\:b" ∧
        GivesOn (host (rewritten readTwoClasses ⟨"/p/a.css"⟩ (twoClasses ++
          composingRule "y" "a\\:b")) namingByClass fun _ => none) twoPaths ⟨"/p/a.css"⟩ "y" "y"
          "a\\:b" ∧
        ∀ q source other, Stylesheet.parse q source = .ok other →
          ∀ c ∈ other.compositions, "\\31 0col" ∉ c.tokens := by
  intro h y
  have hcolon : IsComposable "a\\:b" := by decide +kernel
  have hdigit : ¬IsComposable "\\31 0col" := by decide +kernel
  have hr : ((System.initial empty).resolveAt h 9 ⟨"/p/a.css"⟩).1 =
      some (.ok ⟨0, ⟨[("a:b", "a\\:b"), ("10col", "\\31 0col")]⟩⟩) := by decide +kernel
  have hsheet : readTwoClasses ⟨"/p/a.css"⟩ = .ok ⟨["a\\:b", "\\31 0col"], []⟩ :=
    parse_twoClasses
  have hy : IsPlainName "y".toList := by decide
  have hresolve : (System.initial empty).resolveAt h 9 ⟨"/p/a.css"⟩ = (some _, _) :=
    Prod.ext hr rfl
  have hall {name : String} (hname : name ∈ ["a\\:b", "\\31 0col"]) :=
    declared_composable readTwoClasses namingByClass (fun _ => none) twoPaths (fun _ _ _ => rfl)
      (coherent_twoClasses _ _) (scopedName_eq_twoPaths _ _) .initial (.inl rfl) rfl
      (by decide +kernel) parse_twoClasses hsheet hresolve hname hy
  obtain ⟨identifiers, hi, hcomposed, -⟩ := hall (List.mem_cons_self ..)
  obtain ⟨hsibling, happended⟩ := hcomposed hcolon
  obtain ⟨-, -, -, hnever⟩ := hall (List.mem_cons_of_mem _ (List.mem_singleton_self _))
  have hvalue : identifiers = "a\\:b" := by
    have hunescape : Identifier.unescape "a\\:b" = "a:b" := by decide +kernel
    rw [hunescape] at hi
    exact (Option.some.inj hi).symm
  subst hvalue
  have hbeside : NamesBeside ⟨"/p/b.css"⟩ ⟨"/p/a.css"⟩ "a.css" :=
    ⟨by decide +kernel, by decide +kernel, by simp, by decide⟩
  refine ⟨hcolon, hdigit, _, _, hresolve, rfl, ?_, ?_, hnever hdigit⟩
  · apply hsibling "a.css" ⟨"/p/b.css"⟩ (.inr rfl) hbeside
    intro hreach
    rcases hreach.cases_head with he | ⟨_, ⟨q, _, _, sheet, hread, t, ht, _⟩, _⟩
    · revert he
      decide +kernel
    · rw [readTwoClasses_eq_ok hread] at ht
      cases ht
  · exact happended endsDelimited_twoClasses rfl

/-- A hex escape that ends with a blank is cut there when it is composed, beside its stylesheet and
at its end. -/
theorem composable_ne_declared :
    let a : Path := ⟨"/p/a.css"⟩
    let b : Path := ⟨"/p/b.css"⟩
    let name := "\\31 0col"
    Identifier.unescape name = "10col" ∧
      ((System.initial empty).resolveAt (host readTwoClasses namingByClass fun _ => none) 9 a).1 =
        some (.ok ⟨0, ⟨[("a:b", "a\\:b"), ("10col", name)]⟩⟩) ∧
      ((System.initial empty).resolveAt (host (rewritten readTwoClasses b
        (composingRule "y" (siblingValue name "a.css"))) namingByClass fun _ => none) 9 b).1 =
        some (.error (.unknownComposedToken "1" a [b])) ∧
      ((System.initial empty).resolveAt (host (rewritten readTwoClasses a
        (twoClasses ++ composingRule "y" name)) namingByClass fun _ => none) 9 a).1 =
        some (.error (.unknownComposedToken "1" a [a])) := by
  decide +kernel

end Session

end CssModules
