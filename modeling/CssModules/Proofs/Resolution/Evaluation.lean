import CssModules.Resolution.Task
import Mathlib.Data.List.Basic

/-!
What a stylesheet's map is, said without a cache: a depth-first evaluation that follows every
composition to its end. An evaluation has at most one result.
-/

namespace CssModules

namespace TokenMap

def identifiers? (m : TokenMap) (names : List String) : Option (List String) :=
  names.mapM fun name => m.get? (Identifier.unescape name)

def missing? (m : TokenMap) (names : List String) : Option String :=
  (names.map Identifier.unescape).find? fun token => !m.contains token

theorem identifiers?_of_missing?_eq_none {m : TokenMap} {names : List String}
    (h : m.missing? names = none) : ∃ identifiers, m.identifiers? names = some identifiers := by
  induction names with
  | nil => exact ⟨[], rfl⟩
  | cons name names ih =>
    simp only [missing?, List.map_cons, List.find?_cons] at h
    cases hc : m.get? (Identifier.unescape name) with
    | none => simp [contains, hc] at h
    | some value =>
      simp only [contains, hc, Option.isSome_some, Bool.not_true] at h
      obtain ⟨values, hv⟩ := ih h
      simp only [identifiers?] at hv
      exact ⟨value :: values, by simp [identifiers?, hc, hv]⟩

theorem missing?_of_identifiers? {m : TokenMap} {names identifiers : List String}
    (h : m.identifiers? names = some identifiers) : m.missing? names = none := by
  induction names generalizing identifiers with
  | nil => rfl
  | cons name names ih =>
    cases hc : m.get? (Identifier.unescape name) with
    | none => simp [identifiers?, hc] at h
    | some value =>
      cases hv : m.identifiers? names with
      | none =>
        simp only [identifiers?] at hv
        simp [identifiers?, hc, hv] at h
      | some values =>
        simp only [missing?, List.map_cons, List.find?_cons, contains, hc, Option.isSome_some,
          Bool.not_true]
        exact ih hv

end TokenMap

def Source.target? : Source → Option Path
  | .file _ p => some p
  | _ => none

def Composition.targets (compositions : List Composition) : List Path :=
  compositions.filterMap (·.source.target?)

namespace Composition

variable (localAlias specifier : String) (names : List String) (q : Path) (rest : List Composition)

@[simp] theorem targets_nil : targets [] = [] := rfl

@[simp] theorem targets_everywhere :
    targets (⟨localAlias, names, .everywhere⟩ :: rest) = targets rest := rfl

@[simp] theorem targets_here : targets (⟨localAlias, names, .here⟩ :: rest) = targets rest := rfl

@[simp] theorem targets_file :
    targets (⟨localAlias, names, .file specifier q⟩ :: rest) = q :: targets rest := rfl

@[simp] theorem targets_append (before behind : List Composition) :
    targets (before ++ behind) = targets before ++ targets behind := List.filterMap_append

end Composition

/-- Everything that maps depend on: how stylesheets are read, and how classes are named. -/
structure Library where
  read : Path → Except Error Stylesheet
  name : String → Path → String

/-- What an evaluation is about: a stylesheet that is asked for, or one that is being read, with its
map so far and the compositions that are left. -/
inductive Goal where
  | request (p : Path)
  | compose (p : Path) (tokens : TokenMap) (rest : List Composition)

@[simp] def Goal.targets : Goal → List Path
  | .request p => [p]
  | .compose _ _ rest => Composition.targets rest

namespace Library

/-- The map of a stylesheet before its compositions: each of its classes once, with the name of its
first spelling. -/
def declared (lib : Library) (p : Path) (names : List String) : TokenMap :=
  names.foldl (fun tokens name => tokens.insert (Identifier.unescape name) (lib.name name p)) .empty

/-- What a goal comes to inside of a chain of stylesheets. The chain of a composition ends with the
stylesheet that it stands in. -/
inductive Evaluates (lib : Library) : List Path → Goal → Except Error TokenMap → Prop
  | cycle {chain p} (hp : p.location ∈ chain.map Path.location) :
      Evaluates lib chain (.request p)
        (.error (.cyclicComposition (chain.dropWhile (fun q => !q.same p) ++ [p])))
  | unreadable {chain p e} (hp : p.location ∉ chain.map Path.location)
      (hr : lib.read p = .error e) : Evaluates lib chain (.request p) (.error e)
  | readable {chain p sheet r} (hp : p.location ∉ chain.map Path.location)
      (hr : lib.read p = .ok sheet)
      (h : Evaluates lib (chain ++ [p])
        (.compose p (lib.declared p sheet.localNames) sheet.compositions) r) :
      Evaluates lib chain (.request p) r
  | finished {chain p tokens} : Evaluates lib chain (.compose p tokens []) (.ok tokens)
  | everywhere {chain p tokens localAlias names rest r}
      (h : Evaluates lib chain (.compose p (tokens.compose (Identifier.unescape localAlias)
        (names.map Identifier.unescape)) rest) r) :
      Evaluates lib chain (.compose p tokens (⟨localAlias, names, .everywhere⟩ :: rest)) r
  | here {chain p tokens localAlias names identifiers rest r}
      (hi : tokens.identifiers? names = some identifiers)
      (h : Evaluates lib chain (.compose p (tokens.compose (Identifier.unescape localAlias)
        identifiers) rest) r) :
      Evaluates lib chain (.compose p tokens (⟨localAlias, names, .here⟩ :: rest)) r
  | unknownHere {chain p tokens localAlias names token rest}
      (hm : tokens.missing? names = some token) :
      Evaluates lib chain (.compose p tokens (⟨localAlias, names, .here⟩ :: rest))
        (.error (.unknownComposedToken token p chain))
  | file {chain p tokens localAlias names specifier q map identifiers rest r}
      (hq : Evaluates lib chain (.request q) (.ok map))
      (hi : map.identifiers? names = some identifiers)
      (h : Evaluates lib chain (.compose p (tokens.compose (Identifier.unescape localAlias)
        identifiers) rest) r) :
      Evaluates lib chain (.compose p tokens (⟨localAlias, names, .file specifier q⟩ :: rest)) r
  | unknownThere {chain p tokens localAlias names specifier q map token rest}
      (hq : Evaluates lib chain (.request q) (.ok map)) (hm : map.missing? names = some token) :
      Evaluates lib chain (.compose p tokens (⟨localAlias, names, .file specifier q⟩ :: rest))
        (.error (.unknownComposedToken token q chain))
  | missing {chain p tokens localAlias names specifier q missing rest}
      (hq : Evaluates lib chain (.request q) (.error (.stylesheetNotFound missing)))
      (hm : missing.same q) :
      Evaluates lib chain (.compose p tokens (⟨localAlias, names, .file specifier q⟩ :: rest))
        (.error (.missingCompositionTarget p specifier (chain ++ [q])))
  | failed {chain p tokens localAlias names specifier q e rest}
      (hq : Evaluates lib chain (.request q) (.error e))
      (he : ∀ missing : Path, missing.same q → e ≠ .stylesheetNotFound missing) :
      Evaluates lib chain (.compose p tokens (⟨localAlias, names, .file specifier q⟩ :: rest))
        (.error e)

/-- The requests that an evaluation comes to before it fails, each with the chain that it is made
in. -/
inductive Requests (lib : Library) : List Path → Goal → List Path → Path → Prop
  | here {chain p} : Requests lib chain (.request p) chain p
  | inside {chain p sheet chain' q} (hp : p.location ∉ chain.map Path.location)
      (hr : lib.read p = .ok sheet)
      (h : Requests lib (chain ++ [p])
        (.compose p (lib.declared p sheet.localNames) sheet.compositions) chain' q) :
      Requests lib chain (.request p) chain' q
  | target {chain p tokens localAlias names specifier t rest chain' q}
      (h : Requests lib chain (.request t) chain' q) :
      Requests lib chain (.compose p tokens (⟨localAlias, names, .file specifier t⟩ :: rest))
        chain' q
  | afterEverywhere {chain p tokens localAlias names rest chain' q}
      (h : Requests lib chain (.compose p (tokens.compose (Identifier.unescape localAlias)
        (names.map Identifier.unescape)) rest) chain' q) :
      Requests lib chain (.compose p tokens (⟨localAlias, names, .everywhere⟩ :: rest)) chain' q
  | afterHere {chain p tokens localAlias names identifiers rest chain' q}
      (hi : tokens.identifiers? names = some identifiers)
      (h : Requests lib chain (.compose p (tokens.compose (Identifier.unescape localAlias)
        identifiers) rest) chain' q) :
      Requests lib chain (.compose p tokens (⟨localAlias, names, .here⟩ :: rest)) chain' q
  | afterFile {chain p tokens localAlias names specifier t map identifiers rest chain' q}
      (ht : lib.Evaluates chain (.request t) (.ok map))
      (hi : map.identifiers? names = some identifiers)
      (h : Requests lib chain (.compose p (tokens.compose (Identifier.unescape localAlias)
        identifiers) rest) chain' q) :
      Requests lib chain (.compose p tokens (⟨localAlias, names, .file specifier t⟩ :: rest))
        chain' q

/-- A request that cannot but fail as a cycle: it is on its own chain, unless whoever reads
stylesheets calls it one. -/
def Cyclic (lib : Library) (chain : List Path) (p : Path) : Prop :=
  p.location ∈ chain.map Path.location ∨ ∃ c, lib.read p = .error (.cyclicComposition c)

variable {lib : Library} {chain : List Path} {g : Goal} {p : Path}

theorem Evaluates.deterministic {r r' : Except Error TokenMap} (h : lib.Evaluates chain g r)
    (h' : lib.Evaluates chain g r') : r = r' := by
  induction h generalizing r' with
  | cycle hp =>
    cases h' with
    | cycle => rfl
    | unreadable hp' => exact absurd hp hp'
    | readable hp' => exact absurd hp hp'
  | unreadable hp hr =>
    cases h' with
    | cycle hp' => exact absurd hp' hp
    | unreadable _ hr' =>
      cases hr.symm.trans hr'
      rfl
    | readable _ hr' => cases hr.symm.trans hr'
  | readable hp hr _ ih =>
    cases h' with
    | cycle hp' => exact absurd hp' hp
    | unreadable _ hr' => cases hr.symm.trans hr'
    | readable _ hr' h' =>
      cases hr.symm.trans hr'
      exact ih h'
  | finished => cases h'; rfl
  | everywhere _ ih => cases h' with | everywhere h' => exact ih h'
  | here hi _ ih =>
    cases h' with
    | here hi' h' =>
      cases hi.symm.trans hi'
      exact ih h'
    | unknownHere hm => cases hm.symm.trans (TokenMap.missing?_of_identifiers? hi)
  | unknownHere hm =>
    cases h' with
    | here hi _ => cases hm.symm.trans (TokenMap.missing?_of_identifiers? hi)
    | unknownHere hm' =>
      cases hm.symm.trans hm'
      rfl
  | file _ hi _ ihq ih =>
    cases h' with
    | file hq' hi' h' =>
      cases ihq hq'
      cases hi.symm.trans hi'
      exact ih h'
    | unknownThere hq' hm =>
      cases ihq hq'
      cases hm.symm.trans (TokenMap.missing?_of_identifiers? hi)
    | missing hq' => cases ihq hq'
    | failed hq' => cases ihq hq'
  | unknownThere _ hm ihq =>
    cases h' with
    | file hq' hi =>
      cases ihq hq'
      cases hm.symm.trans (TokenMap.missing?_of_identifiers? hi)
    | unknownThere hq' hm' =>
      cases ihq hq'
      cases hm.symm.trans hm'
      rfl
    | missing hq' => cases ihq hq'
    | failed hq' => cases ihq hq'
  | missing _ hm ihq =>
    cases h' with
    | file hq' => cases ihq hq'
    | unknownThere hq' => cases ihq hq'
    | missing hq' hm' => rfl
    | failed hq' he =>
      cases ihq hq'
      exact absurd rfl (he _ hm)
  | failed _ he ihq =>
    cases h' with
    | file hq' => cases ihq hq'
    | unknownThere hq' => cases ihq hq'
    | missing hq' hm =>
      cases ihq hq'
      exact absurd rfl (he _ hm)
    | failed hq' => exact ihq hq'

theorem Evaluates.append {tokens tokens' : TokenMap} {before behind : List Composition}
    {r : Except Error TokenMap} (h : lib.Evaluates chain (.compose p tokens before) (.ok tokens'))
    (h' : lib.Evaluates chain (.compose p tokens' behind) r) :
    lib.Evaluates chain (.compose p tokens (before ++ behind)) r := by
  generalize hg : Goal.compose p tokens before = g at h
  generalize hr : Except.ok tokens' = r' at h
  induction h generalizing tokens before with
  | cycle => cases hg
  | unreadable => cases hg
  | readable => cases hg
  | finished =>
    cases hg
    cases hr
    exact h'
  | everywhere _ ih =>
    cases hg
    exact .everywhere (ih h' rfl hr)
  | here hi _ ih =>
    cases hg
    exact .here hi (ih h' rfl hr)
  | unknownHere => cases hr
  | file hq hi _ _ ih =>
    cases hg
    exact .file hq hi (ih h' rfl hr)
  | unknownThere => cases hr
  | missing => cases hr
  | failed => cases hr

theorem Evaluates.exists_cyclic {r : Except Error TokenMap} {c : List Path}
    (h : lib.Evaluates chain g r) (hr : r = .error (.cyclicComposition c)) :
    ∃ chain' q, lib.Requests chain g chain' q ∧ lib.Cyclic chain' q := by
  induction h with
  | cycle hp => exact ⟨_, _, .here, .inl hp⟩
  | unreadable _ hread =>
    cases hr
    exact ⟨_, _, .here, .inr ⟨c, hread⟩⟩
  | readable hp hread _ ih =>
    obtain ⟨chain', q, h, hc⟩ := ih hr
    exact ⟨chain', q, .inside hp hread h, hc⟩
  | finished => cases hr
  | everywhere _ ih =>
    obtain ⟨chain', q, h, hc⟩ := ih hr
    exact ⟨chain', q, .afterEverywhere h, hc⟩
  | here hi _ ih =>
    obtain ⟨chain', q, h, hc⟩ := ih hr
    exact ⟨chain', q, .afterHere hi h, hc⟩
  | unknownHere => cases hr
  | file hq hi _ _ ih =>
    obtain ⟨chain', q, h, hc⟩ := ih hr
    exact ⟨chain', q, .afterFile hq hi h, hc⟩
  | unknownThere => cases hr
  | missing => cases hr
  | failed _ _ ih =>
    obtain ⟨chain', q, h, hc⟩ := ih hr
    exact ⟨chain', q, .target h, hc⟩

theorem Requests.result {r : Except Error TokenMap} {chain' : List Path} {q : Path}
    (h : lib.Requests chain g chain' q) (hc : lib.Cyclic chain' q) (hr : lib.Evaluates chain g r) :
    ∃ c, r = .error (.cyclicComposition c) := by
  induction h generalizing r with
  | here =>
    cases hr with
    | cycle => exact ⟨_, rfl⟩
    | unreadable hp hread =>
      obtain ⟨c, hc⟩ := hc.resolve_left hp
      cases hread.symm.trans hc
      exact ⟨c, rfl⟩
    | readable hp hread =>
      obtain ⟨c, hc⟩ := hc.resolve_left hp
      cases hread.symm.trans hc
  | inside hp hread _ ih =>
    cases hr with
    | cycle hp' => exact absurd hp' hp
    | unreadable _ hread' => cases hread.symm.trans hread'
    | readable _ hread' h =>
      cases hread.symm.trans hread'
      exact ih hc h
  | target _ ih =>
    cases hr with
    | file hq =>
      obtain ⟨c, he⟩ := ih hc hq
      cases he
    | unknownThere hq =>
      obtain ⟨c, he⟩ := ih hc hq
      cases he
    | missing hq =>
      obtain ⟨c, he⟩ := ih hc hq
      cases he
    | failed hq =>
      obtain ⟨c, he⟩ := ih hc hq
      cases he
      exact ⟨c, rfl⟩
  | afterEverywhere _ ih => cases hr with | everywhere h => exact ih hc h
  | afterHere hi _ ih =>
    cases hr with
    | here hi' h =>
      cases hi.symm.trans hi'
      exact ih hc h
    | unknownHere hm => cases hm.symm.trans (TokenMap.missing?_of_identifiers? hi)
  | afterFile ht hi _ ih =>
    cases hr with
    | file ht' hi' h =>
      cases ht.deterministic ht'
      cases hi.symm.trans hi'
      exact ih hc h
    | unknownThere ht' hm =>
      cases ht.deterministic ht'
      cases hm.symm.trans (TokenMap.missing?_of_identifiers? hi)
    | missing ht' => cases ht.deterministic ht'
    | failed ht' => cases ht.deterministic ht'

/-- An evaluation fails as a cycle exactly if it comes to a request on its own chain. -/
theorem Evaluates.cyclic_iff {r : Except Error TokenMap} (h : lib.Evaluates chain g r) :
    (∃ c, r = .error (.cyclicComposition c)) ↔
      ∃ chain' q, lib.Requests chain g chain' q ∧ lib.Cyclic chain' q := by
  constructor
  · rintro ⟨c, hr⟩
    exact h.exists_cyclic hr
  · rintro ⟨chain', q, hq, hc⟩
    exact hq.result hc h

end Library

end CssModules
