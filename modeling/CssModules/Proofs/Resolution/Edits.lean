import CssModules.Proofs.Resolution.ClassLists
import CssModules.Proofs.Resolution.Keys

namespace CssModules

open Relation

namespace TokenMap

/-- Maps that are the same but for a class that only the second one has. -/
structure Adds (className own : String) (m m' : TokenMap) : Prop where
  fresh : m.get? className = none
  own : m'.get? className = some own
  others : ∀ name ≠ className, m'.get? name = m.get? name

variable {m m' : TokenMap} {className own name : String}

theorem identifiers?_mono (h : ∀ name value, m.get? name = some value → m'.get? name = some value)
    {names identifiers : List String} (hi : m.identifiers? names = some identifiers) :
    m'.identifiers? names = some identifiers := by
  induction names generalizing identifiers with
  | nil => exact hi
  | cons name names ih =>
    rw [identifiers?, List.mapM_cons] at hi ⊢
    simp only [Option.bind_eq_bind, Option.bind_eq_some_iff] at hi ⊢
    obtain ⟨value, hvalue, values, hvalues, he⟩ := hi
    exact ⟨value, h _ _ hvalue, values, ih hvalues, he⟩

theorem adds_insert (h : m.get? className = none) (own : String) :
    Adds className own m (m.insert className own) := by
  constructor
  · exact h
  · rw [get?_insert, h, if_pos rfl, Option.none_or]
  · intro name hne
    rw [get?_insert, if_neg hne, Option.or_none]

theorem contains_compose {identifiers : List String} {receiver : String} :
    (m.compose receiver identifiers).contains name = true ↔
      name = receiver ∨ m.contains name = true := by
  rw [contains, get?_compose]
  split
  · next he => simp [he]
  · next hne => simp [hne, contains]

namespace Adds

theorem identifiers? (h : Adds className own m m') {names identifiers : List String}
    (hi : m.identifiers? names = some identifiers) : m'.identifiers? names = some identifiers := by
  apply identifiers?_mono _ hi
  intro name value hvalue
  have hne : name ≠ className := by
    rintro rfl
    cases h.fresh.symm.trans hvalue
  rw [h.others name hne, hvalue]

theorem compose (h : Adds className own m m') (hne : name ≠ className) (identifiers : List String) :
    Adds className own (m.compose name identifiers) (m'.compose name identifiers) := by
  constructor
  · rw [get?_compose, if_neg (Ne.symm hne), h.fresh]
  · rw [get?_compose, if_neg (Ne.symm hne), h.own]
  · intro other hother
    rw [get?_compose, get?_compose, h.others name hne, h.others other hother]

end Adds

end TokenMap

namespace Library

variable {lib lib' : Library} {files : Set Path} {chain : List Path} {g : Goal} {p : Path}
  {tokens tokens' m : TokenMap} {rest : List Composition} {r : Except Error TokenMap}
  {name className own : String}

theorem declared_append (lib : Library) (p : Path) (names : List String) (name : String) :
    lib.declared p (names ++ [name]) =
      (lib.declared p names).insert (Identifier.unescape name) (lib.name name p) := by
  rw [declared, List.foldl_append]
  rfl

theorem contains_declared {names : List String} (h : name ∈ names) :
    (lib.declared p names).contains (Identifier.unescape name) = true := by
  induction names using List.reverseRecOn with
  | nil => cases h
  | append_singleton names last ih =>
    rw [declared_append, TokenMap.contains_iff, TokenMap.keys_insert]
    rcases List.mem_append.1 h with h | h
    · have hkeys := TokenMap.contains_iff.1 (ih h)
      split
      · exact hkeys
      · exact List.mem_append_left _ hkeys
    · obtain rfl := List.mem_singleton.1 h
      split
      · next hkeys => exact hkeys
      · exact List.mem_append_right _ (List.mem_singleton_self _)

theorem Evaluates.contains (h : lib.Evaluates chain g r) (hg : g = .compose p tokens rest)
    (hr : r = .ok m) (hname : tokens.contains name = true) : m.contains name = true := by
  induction h generalizing tokens rest with
  | cycle => cases hg
  | unreadable => cases hg
  | readable => cases hg
  | finished =>
    cases hg
    cases hr
    exact hname
  | everywhere _ ih =>
    cases hg
    exact ih rfl hr (TokenMap.contains_compose.2 (.inr hname))
  | here _ _ ih =>
    cases hg
    exact ih rfl hr (TokenMap.contains_compose.2 (.inr hname))
  | unknownHere => cases hr
  | file _ _ _ _ ih =>
    cases hg
    exact ih rfl hr (TokenMap.contains_compose.2 (.inr hname))
  | unknownThere => cases hr
  | missing => cases hr
  | failed => cases hr

theorem Evaluates.receiver_ne {identifiers : List String}
    (h : lib.Evaluates chain (.compose p (tokens.compose name identifiers) rest) (.ok m))
    (hm : m.get? className = none) : name ≠ className := by
  rintro rfl
  have hcontains := h.contains rfl rfl (TokenMap.contains_compose.2 (.inl rfl))
  rw [TokenMap.contains, hm] at hcontains
  cases hcontains

theorem Evaluates.adds (h : lib.Evaluates chain g r) (hg : g = .compose p tokens rest)
    (hr : r = .ok m) (hm : m.get? className = none) (ht : tokens.Adds className own tokens') :
    ∃ m', lib.Evaluates chain (.compose p tokens' rest) (.ok m') ∧ m.Adds className own m' := by
  -- Along the compositions `Adds` holds of the two maps so far. The receivers are in the final map,
  -- where the class is not, and the lookups of the first map find the same in the second one.
  induction h generalizing tokens tokens' rest with
  | cycle => cases hg
  | unreadable => cases hg
  | readable => cases hg
  | finished =>
    cases hg
    cases hr
    exact ⟨tokens', .finished, ht⟩
  | everywhere h ih =>
    cases hg
    subst hr
    obtain ⟨m', h', hm'⟩ := ih rfl rfl (ht.compose (h.receiver_ne hm) _)
    exact ⟨m', .everywhere h', hm'⟩
  | here hi h ih =>
    cases hg
    subst hr
    obtain ⟨m', h', hm'⟩ := ih rfl rfl (ht.compose (h.receiver_ne hm) _)
    exact ⟨m', .here (ht.identifiers? hi) h', hm'⟩
  | unknownHere => cases hr
  | file hq hi h _ ih =>
    cases hg
    subst hr
    obtain ⟨m', h', hm'⟩ := ih rfl rfl (ht.compose (h.receiver_ne hm) _)
    exact ⟨m', .file hq hi h', hm'⟩
  | unknownThere => cases hr
  | missing => cases hr
  | failed => cases hr

/-- Libraries that differ at most in the stylesheet at one place. -/
structure AlikeBut (lib lib' : Library) (l : Location) : Prop where
  read {q : Path} : q.location ≠ l → lib'.read q = lib.read q
  name : lib'.name = lib.name

theorem AlikeBut.declared {l : Location} (h : lib.AlikeBut lib' l) (p : Path) (names : List String) :
    lib'.declared p names = lib.declared p names := by
  rw [Library.declared, h.name]
  rfl

/-- What does not come to a stylesheet does not depend on it. -/
theorem Evaluates.alikeBut {l : Location} (hc : lib.Coherent files) (hl : lib.AlikeBut lib' l)
    (h : lib.Evaluates chain g r) (hf : ∀ q ∈ g.targets, q ∈ files)
    (hn : ∀ q ∈ g.targets, ¬ReflTransGen (lib.Composes files) q.location l) :
    lib'.Evaluates chain g r := by
  have hread {q : Path} (hq : ¬ReflTransGen (lib.Composes files) q.location l) :
      lib'.read q = lib.read q := by
    apply hl.read
    rintro rfl
    exact hq .refl
  induction h with
  | cycle hp => exact .cycle hp
  | unreadable hp hr =>
    rw [← hread (hn _ (List.mem_singleton_self _))] at hr
    exact .unreadable hp hr
  | @readable _ p sheet _ hp hr _ ih =>
    have hpf := hf p (List.mem_singleton_self p)
    have hpn := hn p (List.mem_singleton_self p)
    have hinside := ih (fun q hq => hc.target_mem hpf hr hq)
      fun q hq hreach => hpn (.head (.of_read hpf hr hq) hreach)
    rw [← hl.declared] at hinside
    rw [← hread hpn] at hr
    exact .readable hp hr hinside
  | finished => exact .finished
  | everywhere _ ih => exact .everywhere (ih (by simpa using hf) (by simpa using hn))
  | here hi _ ih => exact .here hi (ih (by simpa using hf) (by simpa using hn))
  | unknownHere hm => exact .unknownHere hm
  | file _ hi _ ihq ih =>
    simp only [Goal.targets, Composition.targets_file, List.forall_mem_cons] at hf hn
    exact .file (ihq (by simpa using hf.1) (by simpa using hn.1)) hi (ih hf.2 hn.2)
  | unknownThere _ hm ihq =>
    simp only [Goal.targets, Composition.targets_file, List.forall_mem_cons] at hf hn
    exact .unknownThere (ihq (by simpa using hf.1) (by simpa using hn.1)) hm
  | missing _ hm ihq =>
    simp only [Goal.targets, Composition.targets_file, List.forall_mem_cons] at hf hn
    exact .missing (ihq (by simpa using hf.1) (by simpa using hn.1)) hm
  | failed _ he ihq =>
    simp only [Goal.targets, Composition.targets_file, List.forall_mem_cons] at hf hn
    exact .failed (ihq (by simpa using hf.1) (by simpa using hn.1)) he

end Library

end CssModules
