import CssModules.Proofs.Resolution.Linked
import CssModules.Proofs.Resolution.Sessions
import Mathlib.Data.List.Chain

namespace CssModules

open Relation

def ComposesFrom (read : Path → Except Error Stylesheet) (p q : Path) : Prop :=
  ∃ sheet, read p = .ok sheet ∧ q ∈ Composition.targets sheet.compositions

/-- Failures that can come up at the end of a chain of stylesheets: the last one cannot be read, or
the error tells the chain itself, or one that it ends with. -/
inductive Raised (read : Path → Except Error Stylesheet) : List Path → Error → Prop
  | unreadable {chain p e} (hr : read p = .error e) : Raised read (chain ++ [p]) e
  | unknown {chain token target} : Raised read chain (.unknownComposedToken token target chain)
  | missing {chain requester specifier} :
      Raised read chain (.missingCompositionTarget requester specifier chain)
  | cyclic {chain cycle} (hc : cycle <:+ chain) : Raised read chain (.cyclicComposition cycle)

/-- Chains of stylesheets that begin with `root` and of which each composes from the next. -/
structure ChainFrom (read : Path → Except Error Stylesheet) (root : Path) (chain : List Path) :
    Prop where
  head : chain.head? = some root
  isChain : chain.IsChain (ComposesFrom read)

namespace Cache

def Grows (c c' : Cache) : Prop :=
  ∀ l finished, c.get? l = some finished → c'.get? l = some finished

def Supplies (c : Cache) (p : Path) (m : TokenMap) : Prop :=
  ∃ number, c.get? p.location = some ⟨number, m⟩

/-- Whether everything that a stylesheet composes from is finished or still to be asked for. -/
def Supplied (read : Path → Except Error Stylesheet) (c : Cache) (p : Path) (_ : TokenMap)
    (rest : List Composition) : Prop :=
  ∃ sheet, read p = .ok sheet ∧
    Composition.targets rest ⊆ Composition.targets sheet.compositions ∧
    ∀ q ∈ Composition.targets sheet.compositions,
      q ∈ Composition.targets rest ∨ (c.get? q.location).isSome

/-- Whether a failure has come up at the end of a chain that began with `root`, and nothing of the
chain is finished. -/
def Fails (read : Path → Except Error Stylesheet) (c : Cache) (root : Path) (e : Error) : Prop :=
  ∃ chain, ChainFrom read root chain ∧ Raised read chain e ∧ ∀ q ∈ chain, c.get? q.location = none

variable {read : Path → Except Error Stylesheet} {c c' : Cache} {root p : Path} {tokens : TokenMap}
  {rest : List Composition} {e : Error}

theorem Grows.isSome (hc : c.Grows c') {l : Location} (h : (c.get? l).isSome) :
    (c'.get? l).isSome := by
  obtain ⟨finished, hf⟩ := Option.isSome_iff_exists.1 h
  rw [hc _ _ hf, Option.isSome_some]

theorem Supplied.mono (h : c.Supplied read p tokens rest) (hc : c.Grows c') :
    c'.Supplied read p tokens rest := by
  obtain ⟨sheet, hr, hsub, hall⟩ := h
  exact ⟨sheet, hr, hsub, fun q hq => (hall q hq).imp_right hc.isSome⟩

theorem Fails.anti (h : c.Fails read root e) (hc : ∀ l, c.get? l = none → c'.get? l = none) :
    c'.Fails read root e := by
  obtain ⟨chain, hchain, hraised, hfree⟩ := h
  exact ⟨chain, hchain, hraised, fun q hq => hc _ (hfree q hq)⟩

theorem composable_supplied : Composable c.Supplies (c.Supplied read) where
  everywhere h := h
  here h _ := h
  file h hm _ := by
    obtain ⟨sheet, hr, hsub, hall⟩ := h
    rw [Composition.targets_file] at hsub
    refine ⟨sheet, hr, fun q hq => hsub (List.mem_cons_of_mem _ hq), fun q hq => ?_⟩
    have hq := hall q hq
    rw [Composition.targets_file, List.mem_cons, or_assoc] at hq
    rcases hq with rfl | hq
    · obtain ⟨number, hm⟩ := hm
      rw [hm]
      exact .inr rfl
    · exact hq

end Cache

namespace Task

/-- What a task can do next that began with `root`: all that it is inside of is supplied, and if it
fails nothing of its chain is finished. -/
abbrev Progress (read : Path → Except Error Stylesheet) (c : Cache) (root : Path) :
    Control → List Frame → Prop :=
  Goes c.Supplies (c.Supplied read) (fun _ => c.Fails read root) root

variable {read : Path → Except Error Stylesheet} {c c' : Cache} {root p : Path}
  {frames outer : List Frame} {e : Error}

theorem Linked.grows (hl : Linked (c.Supplied read) root frames p) (hc : c.Grows c') :
    Linked (c'.Supplied read) root frames p :=
  hl.mono fun _ _ _ h => h.mono hc

theorem Linked.chainFrom_of {Going : Path → TokenMap → List Composition → Prop}
    (hl : Linked Going root frames p) (hgoing : ∀ {p tokens rest}, Going p tokens rest →
      ∃ sheet, read p = .ok sheet ∧
        Composition.targets rest ⊆ Composition.targets sheet.compositions) :
    ChainFrom read root (chain frames ++ [p]) := by
  induction hl with
  | nil => exact ⟨rfl, .singleton _⟩
  | @cons f outer next hl hp hg ih =>
    obtain ⟨sheet, hr, hsub⟩ := hgoing hg
    rw [chain_cons]
    refine ⟨?_, ih.isChain.append (.singleton _) fun q hq q' hq' => ?_⟩
    · rw [List.head?_append, ih.head, Option.or]
    · rw [List.getLast?_concat, Option.mem_some_iff] at hq
      obtain rfl := hq
      obtain rfl := Option.some.inj hq'
      exact ⟨sheet, hr, hsub (List.mem_cons_self ..)⟩

theorem Linked.chainFrom (hl : Linked (c.Supplied read) root frames p) :
    ChainFrom read root (chain frames ++ [p]) := by
  apply hl.chainFrom_of
  intro p tokens rest hg
  obtain ⟨sheet, hr, hsub, -⟩ := hg
  exact ⟨sheet, hr, hsub⟩

theorem Linked.reachable (hl : Linked (c.Supplied read) root frames p) :
    ReflTransGen (ComposesFrom read) root p := by
  induction hl with
  | nil => exact .refl
  | cons _ _ hg ih =>
    obtain ⟨sheet, hr, hsub, _⟩ := hg
    exact ih.tail ⟨sheet, hr, hsub (List.mem_cons_self ..)⟩

theorem blame_cases (frames : List Frame) (e : Error) : blame frames e = e ∨
    ∃ f outer next missing, frames = f :: outer ∧ f.pending = some next ∧
      missing.same next.target = true ∧ e = .stylesheetNotFound missing ∧ blame frames e =
        .missingCompositionTarget f.path next.specifier (chain frames ++ [next.target]) := by
  unfold blame
  split
  · next f outer missing =>
    split
    · next next hp =>
      split
      · next hsame => exact .inr ⟨f, outer, next, missing, rfl, hp, hsame, rfl, rfl⟩
      · exact .inl rfl
    · exact .inl rfl
  · exact .inl rfl

theorem cycleError_suffix (frames : List Path) (p : Path) :
    ∃ cycle, cycleError frames p = .cyclicComposition cycle ∧ cycle <:+ frames ++ [p] ∧
      cycle ≠ [] := by
  refine ⟨_, rfl, ?_, List.concat_ne_nil _ _⟩
  split
  · exact List.suffix_rfl
  · obtain ⟨before, hb⟩ := List.dropWhile_suffix (l := frames) fun q => !q.same p
    exact ⟨before, by rw [← List.append_assoc, hb]⟩

theorem progress_enter {n : Naming} {name? : Path → Option String} (s : Session)
    (hl : Linked (c.Supplied read) root frames p)
    (hfree : ∀ q ∈ chain frames ++ [p], c.get? q.location = none) :
    Progress read c root (enter (Session.host read n name?) p frames s).1.1
      (enter (Session.host read n name?) p frames s).1.2 := by
  have hread : ((Session.host read n name?).parse p s).1 = read p := Session.parse_eq read p s
  unfold enter
  split
  · next e s' he =>
    rw [he] at hread
    exact .release hl ⟨_, hl.chainFrom, .unreadable hread.symm, hfree⟩
  · next sheet s' he =>
    rw [he] at hread
    have htells : Tells c.Supplies (c.Supplied read) (fun _ => c.Fails read root)
        (chain frames ++ [p]) p :=
      ⟨fun _ _ => ⟨_, hl.chainFrom, .unknown, hfree⟩, fun _ _ _ => ⟨_, hl.chainFrom, .unknown, hfree⟩⟩
    exact goes_fold Cache.composable_supplied hl
      ⟨sheet, hread.symm, List.Subset.refl _, fun _ => .inl⟩ htells

theorem progress_receive {finished : FinishedMap} (hl : Linked (c.Supplied read) root frames p)
    (hm : c.get? p.location = some finished)
    (hfree : ∀ q ∈ chain frames, c.get? q.location = none) :
    Progress read c root (receive finished frames).1 (receive finished frames).2 := by
  apply goes_receive Cache.composable_supplied hl ⟨finished.number, hm⟩
  rintro f outer rfl hl
  rw [chain_cons] at hfree
  exact ⟨fun _ _ => ⟨_, hl.chainFrom, .unknown, hfree⟩, fun _ _ _ => ⟨_, hl.chainFrom, .unknown, hfree⟩⟩

theorem progress_fail (hl : Linked (c.Supplied read) root frames p) (he : c.Fails read root e)
    (hfree : ∀ q ∈ chain frames ++ [p], c.get? q.location = none) :
    Progress read c root (fail frames e).1 (fail frames e).2 := by
  refine goes_blame hl ?_
  obtain hb | ⟨f, outer, next, missing, rfl, hp, -, rfl, hb⟩ := blame_cases frames e
  · rwa [hb]
  · have hchain := hl.chainFrom
    cases hl with
    | cons _ hp' =>
      cases hp.symm.trans hp'
      rw [hb]
      exact ⟨_, hchain, .missing, hfree⟩

end Task

end CssModules
