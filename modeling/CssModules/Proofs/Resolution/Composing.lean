import CssModules.Proofs.Resolution.Evaluation
import Mathlib.Data.Finset.Card
import Mathlib.Data.Set.Finite.Basic
import Mathlib.Logic.Relation

namespace CssModules

open Relation

theorem not_transGen_self {α : Type} {r : α → α → Prop} {a : α} (h : Acc (Function.swap r) a) :
    ¬ TransGen r a a := by
  induction h with
  | intro a _ ih =>
    intro hc
    obtain ⟨b, hab, hba⟩ := TransGen.head'_iff.1 hc
    exact ih b hab (TransGen.tail' hba hab)

/-- Maps that no lookup and no composition tells apart as far as `Like` goes. -/
structure TokenMap.Congruence (Like : TokenMap → TokenMap → Prop) : Prop where
  refl (m : TokenMap) : Like m m
  trans {m₁ m₂ m₃ : TokenMap} : Like m₁ m₂ → Like m₂ m₃ → Like m₁ m₃
  missing {m m' : TokenMap} (names : List String) : Like m m' → m.missing? names = m'.missing? names
  extend {m m' : TokenMap} (name : String) (identifiers : List String) :
    Like m m' → Like (m.compose name identifiers) (m'.compose name identifiers)
  compose {m m' n n' : TokenMap} {names identifiers identifiers' : List String} (name : String) :
    Like m m' → Like n n' → n.identifiers? names = some identifiers →
    n'.identifiers? names = some identifiers' →
    Like (m.compose name identifiers) (m'.compose name identifiers')

theorem TokenMap.Congruence.identifiers {Like : TokenMap → TokenMap → Prop} {m m' : TokenMap}
    {names identifiers : List String} (hl : Congruence Like) (h : Like m m')
    (hi : m.identifiers? names = some identifiers) :
    ∃ identifiers', m'.identifiers? names = some identifiers' := by
  apply identifiers?_of_missing?_eq_none
  rw [← hl.missing names h]
  exact missing?_of_identifiers? hi

theorem TokenMap.congruence_eq : Congruence Eq where
  refl _ := rfl
  trans := Eq.trans
  missing _ h := h ▸ rfl
  extend _ _ h := h ▸ rfl
  compose _ h hn hi hi' := by
    subst h hn
    cases hi.symm.trans hi'
    rfl

namespace Library

/-- Stylesheets that are closed under composition, and of which no two spellings of a path are read
as different stylesheets. -/
structure Coherent (lib : Library) (files : Set Path) : Prop where
  target_mem {p q : Path} {sheet : Stylesheet} : p ∈ files → lib.read p = .ok sheet →
    q ∈ Composition.targets sheet.compositions → q ∈ files
  read_eq {p q : Path} {sheet : Stylesheet} : p ∈ files → q ∈ files → p.location = q.location →
    lib.read p = .ok sheet → lib.read q = .ok sheet

/-- Whether the stylesheet at one place composes from that at another. -/
def Composes (lib : Library) (files : Set Path) (a b : Location) : Prop :=
  ∃ p ∈ files, p.location = a ∧ ∃ sheet, lib.read p = .ok sheet ∧
    ∃ q ∈ Composition.targets sheet.compositions, q.location = b

variable {lib : Library} {files : Set Path} {chain chain' : List Path} {g : Goal} {p q : Path}
  {m : TokenMap} {sheet : Stylesheet}

theorem Composes.of_read (hp : p ∈ files) (hr : lib.read p = .ok sheet)
    (hq : q ∈ Composition.targets sheet.compositions) :
    lib.Composes files p.location q.location :=
  ⟨p, hp, rfl, sheet, hr, q, hq, rfl⟩

theorem Evaluates.acc {r : Except Error TokenMap} (hc : lib.Coherent files)
    (h : lib.Evaluates chain g r) (hr : r = .ok m) {q : Path} (hq : q ∈ g.targets)
    (hf : q ∈ files) : Acc (Function.swap (lib.Composes files)) q.location := by
  induction h generalizing m q with
  | cycle => cases hr
  | unreadable => cases hr
  | @readable _ p sheet _ _ hread _ ih =>
    obtain rfl := List.mem_singleton.1 hq
    constructor
    rintro _ ⟨p', hp', hl, sheet', hread', q', hq', rfl⟩
    cases hread.symm.trans (hc.read_eq hp' hf hl hread')
    exact ih hr hq' (hc.target_mem hf hread hq')
  | finished => cases hq
  | everywhere _ ih => exact ih hr (by simpa using hq) hf
  | here _ _ ih => exact ih hr (by simpa using hq) hf
  | unknownHere => cases hr
  | file _ _ _ ihq ih =>
    simp only [Goal.targets, Composition.targets_file, List.mem_cons] at hq
    rcases hq with rfl | hq
    · exact ihq rfl (List.mem_singleton_self _) hf
    · exact ih hr hq hf
  | unknownThere => cases hr
  | missing => cases hr
  | failed => cases hr

theorem Evaluates.not_cyclic (hc : lib.Coherent files)
    (h : lib.Evaluates chain (.request p) (.ok m)) (hp : p ∈ files) :
    ¬ TransGen (lib.Composes files) p.location p.location :=
  not_transGen_self (h.acc hc rfl (List.mem_singleton_self _) hp)

/-- A map does not depend on the chain, as long as no stylesheet of the chain can be reached. -/
theorem Evaluates.rechain {r : Except Error TokenMap} (hc : lib.Coherent files)
    (h : lib.Evaluates chain g r) (hr : r = .ok m) (hf : ∀ q ∈ g.targets, q ∈ files)
    (hn : ∀ q ∈ g.targets, ∀ f ∈ chain',
      ¬ ReflTransGen (lib.Composes files) q.location f.location) :
    lib.Evaluates chain' g r := by
  induction h generalizing m chain' with
  | cycle => cases hr
  | unreadable => cases hr
  | @readable chain p sheet r hp hread h ih =>
    have hpf : p ∈ files := hf p (List.mem_singleton_self _)
    have hpn := hn p (List.mem_singleton_self _)
    refine .readable ?_ hread (ih hr ?_ ?_)
    · intro hm
      obtain ⟨f, hfc, hl⟩ := List.mem_map.1 hm
      exact hpn f hfc (hl ▸ .refl)
    · exact fun q hq => hc.target_mem hpf hread hq
    · intro q hq f hfc hreach
      have hstep := Composes.of_read hpf hread hq
      rcases List.mem_append.1 hfc with hfc | hfc
      · exact hpn f hfc (.head hstep hreach)
      · obtain rfl := List.mem_singleton.1 hfc
        cases hr
        exact (Evaluates.readable hp hread h).not_cyclic hc hpf (.head' hstep hreach)
  | finished => exact .finished
  | everywhere _ ih =>
    exact .everywhere (ih hr (by simpa using hf) (by simpa using hn))
  | here hi _ ih =>
    exact .here hi (ih hr (by simpa using hf) (by simpa using hn))
  | unknownHere => cases hr
  | file _ hi _ ihq ih =>
    simp only [Goal.targets, Composition.targets_file, List.forall_mem_cons] at hf hn
    exact .file (ihq rfl (by simpa using hf.1) (by simpa using hn.1)) hi (ih hr hf.2 hn.2)
  | unknownThere => cases hr
  | missing => cases hr
  | failed => cases hr

theorem Evaluates.congr {Like : TokenMap → TokenMap → Prop} {r : Except Error TokenMap}
    {tokens tokens' : TokenMap} {rest : List Composition} (hl : TokenMap.Congruence Like)
    (h : lib.Evaluates chain g r) (hg : g = .compose p tokens rest) (hr : r = .ok m)
    (ht : Like tokens tokens') (q : Path) :
    ∃ m', lib.Evaluates chain (.compose q tokens' rest) (.ok m') ∧ Like m m' := by
  induction h generalizing tokens tokens' rest with
  | cycle => cases hg
  | unreadable => cases hg
  | readable => cases hg
  | finished =>
    cases hg
    cases hr
    exact ⟨_, .finished, ht⟩
  | everywhere _ ih =>
    cases hg
    obtain ⟨m', h, hm⟩ := ih rfl hr (hl.extend _ _ ht)
    exact ⟨m', .everywhere h, hm⟩
  | here hi _ ih =>
    cases hg
    obtain ⟨identifiers', hi'⟩ := hl.identifiers ht hi
    obtain ⟨m', h, hm⟩ := ih rfl hr (hl.compose _ ht ht hi hi')
    exact ⟨m', .here hi' h, hm⟩
  | unknownHere => cases hr
  | file hq hi _ _ ih =>
    cases hg
    obtain ⟨m', h, hm⟩ := ih rfl hr (hl.compose _ ht (hl.refl _) hi hi)
    exact ⟨m', .file hq hi h, hm⟩
  | unknownThere => cases hr
  | missing => cases hr
  | failed => cases hr

theorem Evaluates.respell {Like : TokenMap → TokenMap → Prop} (hl : TokenMap.Congruence Like)
    (hc : lib.Coherent files) (h : lib.Evaluates [] (.request p) (.ok m)) (hp : p ∈ files)
    (hq : q ∈ files) (he : p.location = q.location)
    (hd : ∀ names, Like (lib.declared p names) (lib.declared q names)) :
    ∃ m', lib.Evaluates [] (.request q) (.ok m') ∧ Like m m' := by
  have hn := h.not_cyclic hc hp
  cases h with
  | @readable _ _ sheet _ _ hread h =>
    have h' : lib.Evaluates [q] (.compose p (lib.declared p sheet.localNames) sheet.compositions)
        (.ok m) := by
      refine h.rechain hc rfl (fun t ht => hc.target_mem hp hread ht) ?_
      intro t ht f hf hreach
      obtain rfl := List.mem_singleton.1 hf
      exact hn (.head' (.of_read hp hread ht) (he ▸ hreach))
    obtain ⟨m', h'', hm⟩ := h'.congr hl rfl rfl (hd _) q
    exact ⟨m', .readable (by simp) (hc.read_eq hp hq he hread) h'', hm⟩

theorem exists_evaluates_compose {rest : List Composition}
    (ht : ∀ q ∈ Composition.targets rest, ∃ r, lib.Evaluates chain (.request q) r)
    (tokens : TokenMap) : ∃ r, lib.Evaluates chain (.compose p tokens rest) r := by
  induction rest generalizing tokens with
  | nil => exact ⟨_, .finished⟩
  | cons c rest ih =>
    obtain ⟨localAlias, names, source⟩ := c
    cases source with
    | everywhere =>
      obtain ⟨r, h⟩ := ih ht _
      exact ⟨r, .everywhere h⟩
    | here =>
      cases hm : tokens.missing? names with
      | some token => exact ⟨_, .unknownHere hm⟩
      | none =>
        obtain ⟨identifiers, hi⟩ := TokenMap.identifiers?_of_missing?_eq_none hm
        obtain ⟨r, h⟩ := ih ht _
        exact ⟨r, .here hi h⟩
    | file specifier q =>
      rw [Composition.targets_file, List.forall_mem_cons] at ht
      obtain ⟨x, hq⟩ := ht.1
      cases x with
      | ok map =>
        cases hm : map.missing? names with
        | some token => exact ⟨_, .unknownThere hq hm⟩
        | none =>
          obtain ⟨identifiers, hi⟩ := TokenMap.identifiers?_of_missing?_eq_none hm
          obtain ⟨r, h⟩ := ih ht.2 _
          exact ⟨r, .file hq hi h⟩
      | error e =>
        by_cases he : ∃ missing : Path, missing.same q ∧ e = .stylesheetNotFound missing
        · obtain ⟨missing, hm, rfl⟩ := he
          exact ⟨_, .missing hq hm⟩
        · exact ⟨_, .failed hq fun missing hm hme => he ⟨missing, hm, hme⟩⟩

theorem Coherent.finite (hc : lib.Coherent files) (hf : files.Finite) (hp : p ∈ files) :
    {a | ReflTransGen (lib.Composes files) p.location a}.Finite := by
  refine (hf.image Path.location).subset fun a ha => ?_
  induction ha with
  | refl => exact ⟨p, hp, rfl⟩
  | tail _ hstep _ =>
    obtain ⟨q, hq, _, sheet, hr, t, ht, rfl⟩ := hstep
    exact ⟨t, hc.target_mem hq hr ht, rfl⟩

def offChain (places : Finset Location) (chain : List Path) : Finset Location :=
  places \ (chain.map Path.location).toFinset

theorem card_offChain_append_lt {places : Finset Location} (hp : p.location ∈ places)
    (hn : p.location ∉ chain.map Path.location) :
    (offChain places (chain ++ [p])).card < (offChain places chain).card := by
  apply Finset.card_lt_card
  rw [Finset.ssubset_iff_of_subset]
  · refine ⟨p.location, ?_, ?_⟩
    · simpa [offChain, hp] using hn
    · simp [offChain]
  · apply Finset.sdiff_subset_sdiff (Finset.Subset.refl _)
    intro a ha
    simp only [List.map_append, List.toFinset_append, Finset.mem_union]
    exact .inl ha

/-- Every evaluation ends where only finitely many stylesheets can be reached. -/
theorem exists_evaluates (hc : lib.Coherent files) (hp : p ∈ files)
    (hfin : {a | ReflTransGen (lib.Composes files) p.location a}.Finite) :
    ∃ r, lib.Evaluates [] (.request p) r := by
  have key (n : ℕ) : ∀ chain : List Path, (offChain hfin.toFinset chain).card ≤ n →
      ∀ q ∈ files, q.location ∈ hfin.toFinset → ∃ r, lib.Evaluates chain (.request q) r := by
    induction n with
    | zero =>
      intro chain hn q hq hr
      have he := Finset.card_eq_zero.1 (Nat.le_zero.1 hn)
      refine ⟨_, .cycle ?_⟩
      by_contra hm
      have : q.location ∈ offChain hfin.toFinset chain := by simpa [offChain, hr] using hm
      simp [he] at this
    | succ n ih =>
      intro chain hn q hq hr
      by_cases hm : q.location ∈ chain.map Path.location
      · exact ⟨_, .cycle hm⟩
      · cases hread : lib.read q with
        | error e => exact ⟨_, .unreadable hm hread⟩
        | ok sheet =>
          have hlt := card_offChain_append_lt hr hm
          have ht : ∀ t ∈ Composition.targets sheet.compositions,
              ∃ r, lib.Evaluates (chain ++ [q]) (.request t) r := by
            intro t ht
            refine ih (chain ++ [q]) (by omega) t (hc.target_mem hq hread ht) ?_
            rw [Set.Finite.mem_toFinset] at hr ⊢
            exact .tail hr (.of_read hq hread ht)
          obtain ⟨r, h⟩ := exists_evaluates_compose (p := q) ht (lib.declared q sheet.localNames)
          exact ⟨r, .readable hm hread h⟩
  exact key _ [] le_rfl p hp (by simp [ReflTransGen.refl])

end Library

end CssModules
