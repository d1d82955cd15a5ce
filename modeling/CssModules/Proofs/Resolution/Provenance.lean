import CssModules.Proofs.Resolution.Solitary
import CssModules.Proofs.Resolution.Supply

namespace CssModules

namespace Library

/-- Maps that a goal comes to where the map of a stylesheet can be that of any spelling of its path,
and what it declares is told apart only as far as `Like` goes. -/
inductive Yields (lib : Library) (Like : TokenMap → TokenMap → Prop) : Goal → TokenMap → Prop
  | request {p sheet tokens m} (hr : lib.read p = .ok sheet)
      (hd : Like tokens (lib.declared p sheet.localNames))
      (h : Yields lib Like (.compose p tokens sheet.compositions) m) :
      Yields lib Like (.request p) m
  | finished {p tokens} : Yields lib Like (.compose p tokens []) tokens
  | everywhere {p tokens localAlias names rest m}
      (h : Yields lib Like (.compose p (tokens.compose (Identifier.unescape localAlias)
        (names.map Identifier.unescape)) rest) m) :
      Yields lib Like (.compose p tokens (⟨localAlias, names, .everywhere⟩ :: rest)) m
  | here {p tokens localAlias names identifiers rest m}
      (hi : tokens.identifiers? names = some identifiers)
      (h : Yields lib Like (.compose p (tokens.compose (Identifier.unescape localAlias)
        identifiers) rest) m) :
      Yields lib Like (.compose p tokens (⟨localAlias, names, .here⟩ :: rest)) m
  | file {p tokens localAlias names specifier target q map identifiers rest m}
      (hl : q.location = target.location) (hq : Yields lib Like (.request q) map)
      (hi : map.identifiers? names = some identifiers)
      (h : Yields lib Like (.compose p (tokens.compose (Identifier.unescape localAlias)
        identifiers) rest) m) :
      Yields lib Like (.compose p tokens (⟨localAlias, names, .file specifier target⟩ :: rest)) m

def YieldsAt (lib : Library) (Like : TokenMap → TokenMap → Prop) (p : Path) (m : TokenMap) : Prop :=
  ∃ q : Path, q.location = p.location ∧ lib.Yields Like (.request q) m

variable {lib : Library} {Like : TokenMap → TokenMap → Prop}

theorem Yields.append {p : Path} {start tokens m : TokenMap} {before rest : List Composition}
    (h : lib.Yields Like (.compose p start before) tokens)
    (h' : lib.Yields Like (.compose p tokens rest) m) :
    lib.Yields Like (.compose p start (before ++ rest)) m := by
  generalize hg : Goal.compose p start before = goal at h
  induction h generalizing start before with
  | request => cases hg
  | finished =>
    cases hg
    exact h'
  | everywhere _ ih =>
    cases hg
    exact .everywhere (ih h' rfl)
  | here hi _ ih =>
    cases hg
    exact .here hi (ih h' rfl)
  | file hl hq hi _ _ ih =>
    cases hg
    exact .file hl hq hi (ih h' rfl)

/-- Whether a stylesheet has a map so far with some of its compositions left: what it declares has
come to that by those before. -/
def Composed (lib : Library) (Like : TokenMap → TokenMap → Prop) (p : Path) (tokens : TokenMap)
    (rest : List Composition) : Prop :=
  ∃ sheet before start, lib.read p = .ok sheet ∧ sheet.compositions = before ++ rest ∧
    Like start (lib.declared p sheet.localNames) ∧ lib.Yields Like (.compose p start before) tokens

theorem Composed.next {p : Path} {tokens m : TokenMap} {c : Composition} {rest : List Composition}
    (h : lib.Composed Like p tokens (c :: rest)) (hc : lib.Yields Like (.compose p tokens [c]) m) :
    lib.Composed Like p m rest := by
  obtain ⟨sheet, before, start, hr, he, hlike, hyields⟩ := h
  exact ⟨sheet, before ++ [c], start, hr, by simp [he], hlike, hyields.append hc⟩

theorem Composed.yields {p : Path} {m : TokenMap} (h : lib.Composed Like p m []) :
    lib.Yields Like (.request p) m := by
  obtain ⟨sheet, before, start, hr, he, hlike, hyields⟩ := h
  rw [List.append_nil] at he
  exact .request hr hlike (he ▸ hyields)

theorem Composed.targets {p : Path} {tokens : TokenMap} {rest : List Composition}
    (h : lib.Composed Like p tokens rest) : ∃ sheet, lib.read p = .ok sheet ∧
      Composition.targets rest ⊆ Composition.targets sheet.compositions := by
  obtain ⟨sheet, before, start, hr, he, -⟩ := h
  refine ⟨sheet, hr, ?_⟩
  rw [he, Composition.targets_append]
  exact List.subset_append_right _ _

theorem composable_composed (lib : Library) (Like : TokenMap → TokenMap → Prop) :
    Composable (lib.YieldsAt Like) (lib.Composed Like) where
  everywhere hg := hg.next (.everywhere .finished)
  here hg hi := hg.next (.here hi .finished)
  file hg hm hi := by
    obtain ⟨q, hl, hq⟩ := hm
    exact hg.next (.file hl hq hi .finished)

/-- What the failures of a resolution of `root` tell, as far as they are not those of a stylesheet
that it cannot read: chains of stylesheets that begin with `root`, each of which composes from the
next. -/
inductive Explains (lib : Library) (Like : TokenMap → TokenMap → Prop) (root : Path) : Error → Prop
  | unreadable {walk p e} (hc : ChainFrom lib.read root (walk ++ [p]))
      (hr : lib.read p = .error e) : Explains lib Like root e
  | missing {walk p q missing target specifier sheet c}
      (hc : ChainFrom lib.read root (walk ++ [p, target])) (hr : lib.read p = .ok sheet)
      (hm : c ∈ sheet.compositions) (hs : c.source = .file specifier target)
      (hq : lib.read q = .error (.stylesheetNotFound missing)) (hsame : missing.same target) :
      Explains lib Like root (.missingCompositionTarget p specifier (walk ++ [p, target]))
  | unknownHere {walk p tokens localAlias names name rest}
      (hc : ChainFrom lib.read root (walk ++ [p]))
      (hg : lib.Composed Like p tokens (⟨localAlias, names, .here⟩ :: rest))
      (hn : name ∈ names) (ht : tokens.get? (Identifier.unescape name) = none) :
      Explains lib Like root (.unknownComposedToken (Identifier.unescape name) p (walk ++ [p]))
  | unknownThere {walk p target specifier sheet c map name}
      (hc : ChainFrom lib.read root (walk ++ [p])) (hr : lib.read p = .ok sheet)
      (hm : c ∈ sheet.compositions) (hs : c.source = .file specifier target)
      (hy : lib.YieldsAt Like target map) (hn : name ∈ c.tokens)
      (ht : map.get? (Identifier.unescape name) = none) :
      Explains lib Like root (.unknownComposedToken (Identifier.unescape name) target (walk ++ [p]))
  | cyclic {walk cycle} (hc : ChainFrom lib.read root walk) (hs : cycle <:+ walk)
      (hne : cycle ≠ []) : Explains lib Like root (.cyclicComposition cycle)

/-- What a task can do next whose maps all come from stylesheets, and whose failures tell the
truth. -/
abbrev Sourced (lib : Library) (Like : TokenMap → TokenMap → Prop) (root : Path) :
    Control → List Frame → Prop :=
  Task.Goes (lib.YieldsAt Like) (lib.Composed Like) (fun _ => lib.Explains Like root) root

section Explains

variable {root p : Path} {frames outer : List Frame} {e : Error}

theorem chainFrom (hl : Task.Linked (lib.Composed Like) root frames p) :
    ChainFrom lib.read root (Task.chain frames ++ [p]) :=
  hl.chainFrom_of Composed.targets

theorem missing?_eq_some {m : TokenMap} {names : List String} {token : String}
    (h : m.missing? names = some token) :
    ∃ name ∈ names, Identifier.unescape name = token ∧ m.get? token = none := by
  obtain ⟨name, hn, rfl⟩ := List.mem_map.1 (List.mem_of_find?_eq_some h)
  have hcontains := List.find?_some h
  simp only [TokenMap.contains, Bool.not_eq_true', Option.isSome_eq_false_iff,
    Option.isNone_iff_eq_none] at hcontains
  exact ⟨name, hn, rfl, hcontains⟩

theorem explains_unknown (hl : Task.Linked (lib.Composed Like) root outer p) :
    Task.Tells (lib.YieldsAt Like) (lib.Composed Like) (fun _ => lib.Explains Like root)
      (Task.chain outer ++ [p]) p where
  here hg hm := by
    obtain ⟨name, hn, rfl, ht⟩ := missing?_eq_some hm
    exact .unknownHere (chainFrom hl) hg hn ht
  there hg hy hm := by
    obtain ⟨name, hn, rfl, ht⟩ := missing?_eq_some hm
    obtain ⟨sheet, before, start, hr, he, -⟩ := hg
    have hc := he ▸ List.mem_append_right before (List.mem_cons_self ..)
    exact .unknownThere (chainFrom hl) hr hc rfl hy hn ht

theorem Explains.blame (h : lib.Explains Like root e)
    (hl : Task.Linked (lib.Composed Like) root frames p) :
    lib.Explains Like root (Task.blame frames e) := by
  obtain hb | ⟨f, outer, c, missing, rfl, hp, hsame, rfl, hb⟩ := Task.blame_cases frames e
  · rwa [hb]
  · have hchain := chainFrom hl
    cases hl with
    | cons _ hp' hg =>
      cases hp.symm.trans hp'
      obtain ⟨sheet, before, start, hr, he, -⟩ := hg
      have hc := he ▸ List.mem_append_right before (List.mem_cons_self ..)
      rw [Task.chain_cons, List.append_assoc] at hchain
      rw [hb, Task.chain_cons, List.append_assoc]
      cases h with
      | unreadable _ hq => exact .missing hchain hr hc rfl hq hsame

theorem explains_cycle (hl : Task.Linked (lib.Composed Like) root frames p) :
    lib.Explains Like root (Task.cycleError (Task.chain frames) p) := by
  obtain ⟨cycle, he, hs, hne⟩ := Task.cycleError_suffix (Task.chain frames) p
  rw [he]
  exact .cyclic (chainFrom hl) hs hne

end Explains

end Library

variable {σ : Type} {h : Host σ} {lib : Library} {Like : TokenMap → TokenMap → Prop} {I : σ → Prop}

theorem Library.sourced_receive {finished : FinishedMap} {root p : Path} {frames : List Frame}
    (hl : Task.Linked (lib.Composed Like) root frames p) (hm : lib.YieldsAt Like p finished.map) :
    lib.Sourced Like root (Task.receive finished frames).1 (Task.receive finished frames).2 := by
  apply Task.goes_receive (lib.composable_composed Like) hl hm
  intro f outer _ hl
  exact explains_unknown hl

theorem Library.sourced_fail {e : Error} {root p : Path} {frames : List Frame}
    (hl : Task.Linked (lib.Composed Like) root frames p) (he : lib.Explains Like root e) :
    lib.Sourced Like root (Task.fail frames e).1 (Task.fail frames e).2 :=
  Task.goes_blame hl (he.blame hl)

theorem Library.sourced_enter (hv : h.Serves lib Like I) {root p : Path} {frames : List Frame}
    {s : σ} (hI : I s) (hl : Task.Linked (lib.Composed Like) root frames p) :
    lib.Sourced Like root (Task.enter h p frames s).1.1 (Task.enter h p frames s).1.2 ∧
      I (Task.enter h p frames s).2 := by
  have hread := hv.parse p hI
  have hkeep := hv.parse_keeps p hI
  unfold Task.enter
  split
  · next e s' he =>
    rw [he] at hread hkeep
    exact ⟨.release hl (.unreadable (chainFrom hl) hread.symm), hkeep⟩
  · next sheet s' he =>
    rw [he] at hread hkeep
    refine ⟨?_, hv.declare_keeps p _ hkeep⟩
    have hg : lib.Composed Like p _ sheet.compositions :=
      ⟨sheet, [], _, hread.symm, rfl, hv.declare p _ hkeep, .finished⟩
    exact Task.goes_fold (lib.composable_composed Like) hl hg (explains_unknown hl)

namespace System

variable {roots : List Path} {s s' : System σ} {t t' : Task}

/-- All maps of a system come from stylesheets. -/
abbrev Sourced (lib : Library) (Like : TokenMap → TokenMap → Prop) (I : σ → Prop) :
    List Path → System σ → Prop :=
  Upholds (lib.Sourced Like)
    (fun l map => ∃ q : Path, q.location = l ∧ lib.Yields Like (.request q) map) I

/-- Steps keep that all maps come from stylesheets. -/
theorem stable_sourced (hv : h.Serves lib Like I) :
    Stable h Set.univ Consistent (lib.Sourced Like)
      (fun l map => ∃ q : Path, q.location = l ∧ lib.Yields Like (.request q) map) I where
  consistent := id
  start _ := .claim .nil
  wait _ hg ha := .wait (hg.linked ha)
  enter _ _ _ ha _ he hI hg := by
    rw [he]
    exact Library.sourced_enter hv hI (hg.linked ha)
  receive hg ha hm := Library.sourced_receive (hg.linked ha) hm
  refuse _ _ _ ha _ _ hg :=
    Library.sourced_fail (hg.linked ha) (Library.explains_cycle (hg.linked ha))
  complete number hg := by
    cases hg with
    | complete hl hg => exact ⟨⟨_, rfl, hg.yields⟩, Library.sourced_receive hl ⟨_, rfl, hg.yields⟩⟩
  release hg hI := by
    cases hg with
    | release hl he => exact ⟨Library.sourced_fail hl he, hv.released_keeps _ hI⟩

namespace Sourced

theorem run {state : σ} (hv : h.Serves lib Like I) (hI : I state) (moves : List Move) :
    Sourced lib Like I (Move.roots moves) ((initial state).run h moves) :=
  (stable_sourced hv).run hI (fun _ _ => trivial) fun before _ => (consistent_initial state).run before

theorem answer (hs : Sourced lib Like I roots s) {id : ResolutionId} {p : Path}
    {finished : FinishedMap} (hr : roots[id]? = some p) (ha : s.answer? id = some (.ok finished)) :
    lib.YieldsAt Like p finished.map := by
  obtain ⟨frames, ht⟩ := answer?_eq_some_iff.1 ha
  obtain ⟨root, hr', hg⟩ := hs.task ht
  cases hr.symm.trans hr'
  cases hg with
  | finished hm => exact hm

theorem error_answer (hs : Sourced lib Like I roots s) {id : ResolutionId} {p : Path} {e : Error}
    (hr : roots[id]? = some p) (ha : s.answer? id = some (.error e)) : lib.Explains Like p e := by
  obtain ⟨frames, ht⟩ := answer?_eq_some_iff.1 ha
  obtain ⟨root, hr', hg⟩ := hs.task ht
  cases hr.symm.trans hr'
  cases hg with
  | failed he => exact he

end Sourced

end System

end CssModules
