import CssModules.Proofs.Resolution.Composing
import CssModules.Proofs.Resolution.Ownership

namespace CssModules

open Relation

def Error.Alike (e e' : Error) : Prop :=
  e = e' ∨ ∃ c c', e = .cyclicComposition c ∧ e' = .cyclicComposition c'

namespace Task

theorem identifiersOf_cons_of_some {map : TokenMap} {name value : String} (names : List String)
    (h : map.get? (Identifier.unescape name) = some value) (target : Path) (chain : List Path) :
    identifiersOf map target chain (name :: names) =
      (identifiersOf map target chain names).map (value :: ·) := by
  rw [identifiersOf, List.mapM_cons, identifiersOf]
  simp only [h]
  cases List.mapM (m := Except Error) _ names <;> rfl

theorem identifiersOf_cons_of_none {map : TokenMap} {name : String} (names : List String)
    (h : map.get? (Identifier.unescape name) = none) (target : Path) (chain : List Path) :
    identifiersOf map target chain (name :: names) =
      .error (.unknownComposedToken (Identifier.unescape name) target chain) := by
  rw [identifiersOf, List.mapM_cons]
  simp only [h]
  rfl

theorem identifiersOf_of_identifiers? {map : TokenMap} {names identifiers : List String}
    (h : map.identifiers? names = some identifiers) (target : Path) (chain : List Path) :
    identifiersOf map target chain names = .ok identifiers := by
  induction names generalizing identifiers with
  | nil =>
    cases h
    rfl
  | cons name names ih =>
    simp only [TokenMap.identifiers?, List.mapM_cons, Option.bind_eq_bind,
      Option.bind_eq_some_iff] at h
    obtain ⟨value, hv, values, hvs, hi⟩ := h
    cases hi
    rw [identifiersOf_cons_of_some names hv, ih hvs]
    rfl

theorem identifiersOf_of_missing? {map : TokenMap} {names : List String} {token : String}
    (h : map.missing? names = some token) (target : Path) (chain : List Path) :
    identifiersOf map target chain names = .error (.unknownComposedToken token target chain) := by
  induction names with
  | nil => cases h
  | cons name names ih =>
    rw [TokenMap.missing?, List.map_cons, List.find?_cons, TokenMap.contains] at h
    cases hv : map.get? (Identifier.unescape name) with
    | none =>
      rw [hv] at h
      cases h
      exact identifiersOf_cons_of_none names hv target chain
    | some value =>
      rw [hv] at h
      rw [identifiersOf_cons_of_some names hv, ih h]
      rfl

theorem chain_cons (f : Frame) (outer : List Frame) :
    chain (f :: outer) = chain outer ++ [f.path] := by simp [chain]

end Task

namespace Library

/-- Stylesheets of which the spelling of a path makes no difference, neither to what is read nor, as
far as `Like` goes, to how classes are named. -/
structure Uniform (lib : Library) (files : Set Path) (Like : TokenMap → TokenMap → Prop) : Prop
    extends Coherent lib files where
  congruence : TokenMap.Congruence Like
  declared {p q : Path} (names : List String) : p ∈ files → q ∈ files → p.location = q.location →
    Like (lib.declared p names) (lib.declared q names)

/-- Frames inside of which the evaluation that begins with `root` comes to ask for a stylesheet. -/
inductive Stacked (lib : Library) (files : Set Path) (Like : TokenMap → TokenMap → Prop)
    (root : Path) : List Frame → Path → Prop
  | nil (hf : root ∈ files) : Stacked lib files Like root [] root
  | cons {f outer c sheet before tokens} (hs : Stacked lib files Like root outer f.path)
      (hp : f.pending = some c) (hn : f.path.location ∉ (Task.chain outer).map Path.location)
      (hr : lib.read f.path = .ok sheet)
      (hc : sheet.compositions =
        before ++ ⟨c.localAlias, c.tokens, .file c.specifier c.target⟩ :: f.rest)
      (he : lib.Evaluates (Task.chain (f :: outer))
        (.compose f.path (lib.declared f.path sheet.localNames) before) (.ok tokens))
      (hl : Like f.tokens tokens) : Stacked lib files Like root (f :: outer) c.target

/-- What a task does next is what the evaluation that begins with `root` comes to. -/
inductive Sound (lib : Library) (files : Set Path) (Like : TokenMap → TokenMap → Prop)
    (root : Path) : Control → List Frame → Prop
  | claim {p frames} (hs : Stacked lib files Like root frames p) :
      Sound lib files Like root (.claim p) frames
  | wait {p notified frames} (hs : Stacked lib files Like root frames p) :
      Sound lib files Like root (.wait p notified) frames
  | complete {map m f outer} (hs : Stacked lib files Like root outer f.path)
      (he : lib.Evaluates (Task.chain outer) (.request f.path) (.ok m)) (hl : Like map m) :
      Sound lib files Like root (.complete map) (f :: outer)
  | release {e e' f outer} (hs : Stacked lib files Like root outer f.path)
      (he : lib.Evaluates (Task.chain outer) (.request f.path) (.error e')) (ha : e.Alike e') :
      Sound lib files Like root (.release e) (f :: outer)
  | finished {fm m} (he : lib.Evaluates [] (.request root) (.ok m)) (hl : Like fm.map m) :
      Sound lib files Like root (.done (.ok fm)) []
  | failed {e e'} (he : lib.Evaluates [] (.request root) (.error e')) (ha : e.Alike e') :
      Sound lib files Like root (.done (.error e)) []

variable {lib : Library} {files : Set Path} {Like : TokenMap → TokenMap → Prop} {root p q : Path}
  {frames outer : List Frame} {f : Frame} {m : TokenMap}

namespace Stacked

theorem mem (hs : Stacked lib files Like root frames p) (hc : lib.Coherent files) : p ∈ files := by
  induction hs with
  | nil hf => exact hf
  | cons _ _ _ hr hcs _ _ ih => exact hc.target_mem ih hr (by simp [hcs])

theorem composes (hs : Stacked lib files Like root (f :: outer) p) (hc : lib.Coherent files) :
    lib.Composes files f.path.location p.location := by
  cases hs with
  | cons hs _ _ hr hcs => exact .of_read (hs.mem hc) hr (by simp [hcs])

theorem reaches (hs : Stacked lib files Like root frames p) (hc : lib.Coherent files)
    (hq : q ∈ Task.chain frames) : TransGen (lib.Composes files) q.location p.location := by
  induction hs with
  | nil => cases hq
  | cons hs hp hn hr hcs he hl ih =>
    have hstep := (Stacked.cons hs hp hn hr hcs he hl).composes hc
    rw [Task.chain_cons, List.mem_append, List.mem_singleton] at hq
    rcases hq with hq | rfl
    · exact (ih hq).tail hstep
    · exact .single hstep

theorem rechain (hs : Stacked lib files Like root frames p) (hc : lib.Coherent files)
    {chain : List Path} (h : lib.Evaluates chain (.request p) (.ok m)) :
    lib.Evaluates (Task.chain frames) (.request p) (.ok m) := by
  have hpf := hs.mem hc
  refine h.rechain hc rfl (by simpa using hpf) ?_
  intro q hq f hf hreach
  obtain rfl := List.mem_singleton.1 hq
  exact h.not_cyclic hc hpf (.trans_right hreach (hs.reaches hc hf))

theorem respell (hs : Stacked lib files Like root frames p) (hu : lib.Uniform files Like)
    (h : lib.Evaluates [] (.request q) (.ok m)) (hq : q ∈ files) (hl : q.location = p.location) :
    ∃ m', lib.Evaluates (Task.chain frames) (.request p) (.ok m') ∧ Like m m' := by
  have hc := hu.toCoherent
  have hp := hs.mem hc
  obtain ⟨m', hm, hlike⟩ := h.respell hu.congruence hc hq hp hl
    fun names => hu.declared names hq hp hl
  exact ⟨m', hs.rechain hc hm, hlike⟩

end Stacked

theorem Evaluates.unchain (hc : lib.Coherent files) (hp : p ∈ files) {chain : List Path}
    (h : lib.Evaluates chain (.request p) (.ok m)) : lib.Evaluates [] (.request p) (.ok m) :=
  h.rechain hc rfl (by simpa using hp) (by simp)

theorem sound_fold (hu : lib.Uniform files Like) (hs : Stacked lib files Like root outer p)
    (hn : p.location ∉ (Task.chain outer).map Path.location) {sheet : Stylesheet}
    (hr : lib.read p = .ok sheet) {before rest : List Composition}
    (hcs : sheet.compositions = before ++ rest) {tokens tokens' : TokenMap}
    (he : lib.Evaluates (Task.chain outer ++ [p])
      (.compose p (lib.declared p sheet.localNames) before) (.ok tokens'))
    (hl : Like tokens tokens') :
    Sound lib files Like root (Task.fold p outer tokens rest).1 (Task.fold p outer tokens rest).2 := by
  induction rest generalizing before tokens tokens' with
  | nil =>
    rw [List.append_nil] at hcs
    exact .complete hs (.readable hn hr (hcs ▸ he)) hl
  | cons c rest ih =>
    have hcs' : sheet.compositions = (before ++ [c]) ++ rest := by simp [hcs]
    obtain ⟨localAlias, names, source⟩ := c
    cases source with
    | everywhere =>
      have he' : lib.Evaluates (Task.chain outer ++ [p]) (.compose p
          (lib.declared p sheet.localNames) (before ++ [⟨localAlias, names, .everywhere⟩]))
          (.ok (tokens'.compose (Identifier.unescape localAlias)
            (names.map Identifier.unescape))) := he.append (.everywhere .finished)
      simp only [Task.fold]
      exact ih hcs' he' (hu.congruence.extend _ _ hl)
    | here =>
      cases hm : tokens.missing? names with
      | some token =>
        have hm' : tokens'.missing? names = some token := by
          rw [← hu.congruence.missing names hl, hm]
        have hf : lib.Evaluates (Task.chain outer ++ [p])
            (.compose p (lib.declared p sheet.localNames) sheet.compositions)
            (.error (.unknownComposedToken token p (Task.chain outer ++ [p]))) := by
          rw [hcs]
          exact he.append (.unknownHere hm')
        simp only [Task.fold, Task.identifiersOf_of_missing? hm]
        exact .release hs (.readable hn hr hf) (.inl rfl)
      | none =>
        obtain ⟨identifiers, hi⟩ := TokenMap.identifiers?_of_missing?_eq_none hm
        obtain ⟨identifiers', hi'⟩ := hu.congruence.identifiers hl hi
        have he' : lib.Evaluates (Task.chain outer ++ [p]) (.compose p
            (lib.declared p sheet.localNames) (before ++ [⟨localAlias, names, .here⟩]))
            (.ok (tokens'.compose (Identifier.unescape localAlias) identifiers')) :=
          he.append (.here hi' .finished)
        simp only [Task.fold, Task.identifiersOf_of_identifiers? hi]
        exact ih hcs' he' (hu.congruence.compose _ hl hl hi hi')
    | file specifier target =>
      let c : Pending := ⟨localAlias, names, specifier, target⟩
      rw [← Task.chain_cons ⟨p, tokens, some c, rest⟩ outer] at he
      exact .claim (.cons (c := c) hs rfl hn hr hcs he hl)

theorem Stacked.failed (hs : Stacked lib files Like root (f :: outer) p) {c : Pending}
    (hp : f.pending = some c) {e : Error}
    (h : ∀ tokens, lib.Evaluates (Task.chain (f :: outer)) (.compose f.path tokens
      (⟨c.localAlias, c.tokens, .file c.specifier p⟩ :: f.rest)) (.error e)) :
    lib.Evaluates (Task.chain outer) (.request f.path) (.error e) := by
  cases hs with
  | @cons _ _ c' _ _ _ hs hp' hn hr hcs he hl =>
    cases hp.symm.trans hp'
    have hf := he.append (h _)
    rw [← hcs, Task.chain_cons] at hf
    exact .readable hn hr hf

theorem sound_receive (finished : FinishedMap) (hu : lib.Uniform files Like)
    (hs : Stacked lib files Like root frames p)
    (he : lib.Evaluates (Task.chain frames) (.request p) (.ok m)) (hl : Like finished.map m) :
    Sound lib files Like root (Task.receive finished frames).1 (Task.receive finished frames).2 := by
  cases hs with
  | nil => exact .finished he hl
  | @cons f outer c sheet before tokens hs hp hn hr hcs hb hlt =>
    cases hm : finished.map.missing? c.tokens with
    | some token =>
      have hm' : m.missing? c.tokens = some token := by
        rw [← hu.congruence.missing c.tokens hl, hm]
      have hf := (Stacked.cons hs hp hn hr hcs hb hlt).failed hp fun _ => .unknownThere he hm'
      simp only [Task.receive, hp, Task.identifiersOf_of_missing? hm]
      exact .release (f := { f with pending := none }) hs hf (.inl rfl)
    | none =>
      obtain ⟨identifiers, hi⟩ := TokenMap.identifiers?_of_missing?_eq_none hm
      obtain ⟨identifiers', hi'⟩ := hu.congruence.identifiers hl hi
      have hb' : lib.Evaluates (Task.chain (f :: outer)) (.compose f.path
          (lib.declared f.path sheet.localNames)
          (before ++ [⟨c.localAlias, c.tokens, .file c.specifier c.target⟩]))
          (.ok (tokens.compose (Identifier.unescape c.localAlias) identifiers')) :=
        hb.append (.file he hi' .finished)
      rw [Task.chain_cons] at hb'
      simp only [Task.receive, hp, Task.identifiersOf_of_identifiers? hi]
      exact sound_fold hu hs hn hr (by simp [hcs]) hb' (hu.congruence.compose _ hlt hl hi hi')

theorem sound_fail (hs : Stacked lib files Like root frames p) {e e' : Error}
    (he : lib.Evaluates (Task.chain frames) (.request p) (.error e')) (ha : e.Alike e') :
    Sound lib files Like root (Task.fail frames e).1 (Task.fail frames e).2 := by
  have hs' := hs
  cases hs with
  | nil => exact .failed he ha
  | @cons f outer c _ _ _ hs hp _ _ _ _ _ =>
    refine .release hs (?_ : lib.Evaluates _ _ (.error (Task.blame (f :: outer) e'))) ?_
    · unfold Task.blame
      split
      · next missing _ _ hfs =>
        obtain ⟨rfl, rfl⟩ := List.cons.inj hfs
        simp only [hp]
        split
        · next hm => exact hs'.failed hp fun _ => .missing he hm
        · next hm =>
          refine hs'.failed hp fun _ => .failed he ?_
          rintro missing' hm' heq
          cases heq
          exact hm hm'
      · next hne =>
        refine hs'.failed hp fun _ => .failed he ?_
        rintro missing _ rfl
        exact hne f outer missing rfl rfl
    · obtain rfl | ⟨c₁, c₂, rfl, rfl⟩ := ha
      · exact .inl rfl
      · exact .inr ⟨c₁, c₂, rfl, rfl⟩

/-- Whether a stylesheet that is asked for in a chain fails as a cycle. -/
def Circular (lib : Library) (chain : List Path) (p : Path) : Prop :=
  ∃ c, lib.Evaluates chain (.request p) (.error (.cyclicComposition c))

namespace Stacked

theorem circular_head (hu : lib.Uniform files Like) (hs : Stacked lib files Like root (f :: outer) p)
    {chain : List Path} (hq : q ∈ files) (hl : q.location = f.path.location)
    (hc : ∀ s ∈ chain, ReflTransGen (lib.Composes files) s.location q.location)
    (hp : ∀ chain', chain ⊆ chain' →
      (∀ s ∈ chain', ReflTransGen (lib.Composes files) s.location p.location) →
      lib.Circular chain' p) : lib.Circular chain q := by
  by_cases hm : q.location ∈ chain.map Path.location
  · exact ⟨_, .cycle hm⟩
  · have hco := hu.toCoherent
    cases hs with
    | @cons _ _ c sheet before tokens hs _ _ hr hcs he _ =>
      have hf := hs.mem hco
      have hread := hco.read_eq hf hq hl.symm hr
      have hto (s : Path) (hs : s ∈ chain ++ [q]) :
          ReflTransGen (lib.Composes files) s.location q.location := by
        rcases List.mem_append.1 hs with hs | hs
        · exact hc s hs
        · exact List.mem_singleton.1 hs ▸ .refl
      have hmem (t : Path) (ht : t ∈ Composition.targets before) :
          t ∈ Composition.targets sheet.compositions := by simp [hcs, ht]
      -- what has been composed so far has maps, so none of it leads back to the chain
      have he' : lib.Evaluates (chain ++ [q])
          (.compose f.path (lib.declared f.path sheet.localNames) before) (.ok tokens) := by
        refine he.rechain hco rfl (fun t ht => hco.target_mem hf hr (hmem t ht)) ?_
        intro t ht s hs hreach
        exact not_transGen_self (he.acc hco rfl ht (hco.target_mem hf hr (hmem t ht)))
          (.tail' (hreach.trans (hto s hs)) (.of_read hq hread (hmem t ht)))
      obtain ⟨_, he'', _⟩ := he'.congr hu.congruence rfl rfl
        (hu.declared sheet.localNames hf hq hl.symm) q
      obtain ⟨cycle, hcycle⟩ := hp (chain ++ [q]) (List.subset_append_left ..) fun s hs =>
        (hto s hs).tail (.of_read hq hread (by simp [hcs]))
      have hfail : lib.Evaluates (chain ++ [q])
          (.compose q (lib.declared q sheet.localNames) sheet.compositions)
          (.error (.cyclicComposition cycle)) := by
        rw [hcs]
        exact he''.append (.failed hcycle nofun)
      exact ⟨cycle, .readable hm hread hfail⟩

/-- If what some frames ask for fails as a cycle, so do the stylesheets of all of them. -/
theorem circular (hu : lib.Uniform files Like) (hs : Stacked lib files Like root frames p)
    {chain : List Path} (hq : q ∈ files) (hl : q.location ∈ Task.places frames)
    (hc : ∀ s ∈ chain, ReflTransGen (lib.Composes files) s.location q.location)
    (hp : ∀ chain', chain ⊆ chain' →
      (∀ s ∈ chain', ReflTransGen (lib.Composes files) s.location p.location) →
      lib.Circular chain' p) : lib.Circular chain q := by
  induction hs with
  | nil => cases hl
  | cons hs hpe hn hr hcs he hlt ih =>
    have hs' := Stacked.cons hs hpe hn hr hcs he hlt
    rw [Task.places_cons, List.mem_cons] at hl
    rcases hl with hl | hl
    · exact hs'.circular_head hu hq hl hc hp
    · refine ih hl fun chain' hsub hreach => ?_
      exact hs'.circular_head hu (hs.mem hu.toCoherent) rfl hreach fun chain'' hsub' =>
        hp chain'' (List.Subset.trans hsub hsub')

end Stacked

end Library

end CssModules
