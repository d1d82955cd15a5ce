import CssModules.Proofs.Resolution.Stack
import CssModules.Proofs.Resolution.Upholding

namespace CssModules

open Relation

variable {σ : Type} {h : Host σ} {lib : Library} {files : Set Path}
  {Like : TokenMap → TokenMap → Prop} {I : σ → Prop}

/-- A host that reads as a library does and names alike, as long as its state has a property that
nothing it does takes away. -/
structure Host.Serves (h : Host σ) (lib : Library) (Like : TokenMap → TokenMap → Prop)
    (I : σ → Prop) : Prop where
  parse {s : σ} (p : Path) : I s → (h.parse p s).1 = lib.read p
  parse_keeps {s : σ} (p : Path) : I s → I (h.parse p s).2
  declare {s : σ} (p : Path) (names : List String) : I s →
    Like (Task.declare h p names .empty s).1 (lib.declared p names)
  declare_keeps {s : σ} (p : Path) (names : List String) : I s →
    I (Task.declare h p names .empty s).2
  released_keeps {s : σ} (p : Path) : I s → I (h.released p s)

namespace Library

variable {root p : Path} {frames : List Frame} {control : Control}

theorem Sound.stacked (hs : lib.Sound files Like root control frames)
    (hc : control.request? = some p) : lib.Stacked files Like root frames p := by
  cases hs with
  | claim hs => exact Option.some.inj hc ▸ hs
  | wait hs => exact Option.some.inj hc ▸ hs
  | complete => cases hc
  | release => cases hc
  | finished => cases hc
  | failed => cases hc

theorem sound_enter (hu : lib.Uniform files Like) (hv : h.Serves lib Like I) {s : σ} (hI : I s)
    (hs : lib.Stacked files Like root frames p)
    (hn : p.location ∉ (Task.chain frames).map Path.location) :
    lib.Sound files Like root (Task.enter h p frames s).1.1 (Task.enter h p frames s).1.2 ∧
      I (Task.enter h p frames s).2 := by
  have hread := hv.parse p hI
  have hkeep := hv.parse_keeps p hI
  unfold Task.enter
  split
  · next e s' he =>
    rw [he] at hread hkeep
    exact ⟨.release hs (.unreadable hn hread.symm) (.inl rfl), hkeep⟩
  · next sheet s' he =>
    rw [he] at hread hkeep
    exact ⟨sound_fold hu hs hn hread.symm rfl .finished (hv.declare p _ hkeep),
      hv.declare_keeps p _ hkeep⟩

end Library

namespace System

variable {s s' : System σ} {roots : List Path} {t t' : Task} {id me owner : ResolutionId}

/-- Finished maps are those of their stylesheets, and tasks are as far as evaluations come. -/
abbrev Faithful (lib : Library) (files : Set Path) (Like : TokenMap → TokenMap → Prop)
    (I : σ → Prop) : List Path → System σ → Prop :=
  Upholds (lib.Sound files Like) (fun l map => ∃ p ∈ files, p.location = l ∧
    ∃ m, lib.Evaluates [] (.request p) (.ok m) ∧ Like map m) I

namespace Faithful

theorem circular_of_waitsFor (hf : Faithful lib files Like I roots s)
    (hu : lib.Uniform files Like) (hs : s.Consistent) (hw : s.cache.WaitsFor id owner)
    {chain : List Path} {q : Path} (hq : q ∈ files) (ho : s.cache.owner? q.location = some id)
    (hc : ∀ f ∈ chain, ReflTransGen (lib.Composes files) f.location q.location)
    (hp : ∀ chain' p, chain ⊆ chain' → p ∈ files → s.cache.owner? p.location = some owner →
      (∀ f ∈ chain', ReflTransGen (lib.Composes files) f.location p.location) →
      lib.Circular chain' p) : lib.Circular chain q := by
  obtain ⟨l, hl, hlo⟩ := hw
  rw [hs.waits, System.awaited?, Option.bind_eq_some_iff] at hl
  obtain ⟨t, ht, ha⟩ := hl
  obtain ⟨root, _, hsound⟩ := hf.task ht
  have hmem : q.location ∈ Task.places t.frames := by
    rw [← places_of_task? ht, ← hs.owned, ho]
  obtain ⟨_, control, frames⟩ := t
  cases hsound with
  | wait hst =>
    cases ha
    exact hst.circular hu hq hmem hc fun chain' hsub =>
      hp chain' _ hsub (hst.mem hu.toCoherent) hlo
  | _ => cases ha

/-- What a resolution refuses to wait for fails as a cycle. -/
theorem circular (hf : Faithful lib files Like I roots s) (hu : lib.Uniform files Like)
    (hs : s.Consistent) (ht : s.task? me = some t)
    (hw : owner = me ∨ TransGen s.cache.WaitsFor owner me) {chain : List Path} {q : Path}
    (hq : q ∈ files) (ho : s.cache.owner? q.location = some owner)
    (hsub : Task.chain t.frames ⊆ chain)
    (hc : ∀ f ∈ chain, ReflTransGen (lib.Composes files) f.location q.location) :
    lib.Circular chain q := by
  have hown (chain' : List Path) (p : Path) (hsub : Task.chain t.frames ⊆ chain')
      (ho : s.cache.owner? p.location = some me) : lib.Circular chain' p := by
    rw [hs.owned, places_of_task? ht, Task.mem_places_iff] at ho
    exact ⟨_, .cycle (List.map_subset _ hsub ho)⟩
  rcases hw with rfl | hw
  · exact hown chain q hsub ho
  · induction hw using TransGen.head_induction_on generalizing chain q with
    | single hw =>
      exact hf.circular_of_waitsFor hu hs hw hq ho hc fun chain' p hsub' _ ho' _ =>
        hown chain' p (List.Subset.trans hsub hsub') ho'
    | head hw _ ih =>
      exact hf.circular_of_waitsFor hu hs hw hq ho hc fun chain' p hsub' hp ho' hc' =>
        ih hp ho' (List.Subset.trans hsub hsub') hc'

end Faithful

theorem stable_faithful (hu : lib.Uniform files Like) (hv : h.Serves lib Like I) :
    Stable h files Consistent (lib.Sound files Like) (fun l map => ∃ p ∈ files, p.location = l ∧
      ∃ m, lib.Evaluates [] (.request p) (.ok m) ∧ Like map m) I where
  consistent := id
  start hp := .claim (.nil hp)
  wait _ hr ha := .wait (hr.stacked ha)
  enter {s s' t root p} hs _ ht ha hn he hI hr := by
    have hout : p.location ∉ (Task.chain t.frames).map Path.location := by
      rw [← Task.mem_places_iff, ← hs.owner?_eq_iff ht, Cache.owner?_of_slot?_eq_none hn]
      nofun
    rw [he]
    exact Library.sound_enter hu hv hI (hr.stacked ha) hout
  receive hr ha hm := by
    obtain ⟨q, hq, hl, m, hm, hlike⟩ := hm
    obtain ⟨m', hm', hlike'⟩ := (hr.stacked ha).respell hu hm hq hl
    exact Library.sound_receive _ hu (hr.stacked ha) hm' (hu.congruence.trans hlike hlike')
  refuse {s roots t root p owner} hs hf ht ha ho hw hr := by
    have hst := hr.stacked ha
    have hco := hu.toCoherent
    obtain ⟨c', hc⟩ := Faithful.circular hf hu hs ht hw (hst.mem hco) ho (List.Subset.refl _)
      fun f hf => (hst.reaches hco hf).to_reflTransGen
    exact Library.sound_fail hst hc (.inr ⟨_, c', rfl, rfl⟩)
  complete number hr := by
    cases hr with
    | complete hst hm hlike =>
      have hco := hu.toCoherent
      have hmap := hm.unchain hco (hst.mem hco)
      exact ⟨⟨_, hst.mem hco, rfl, _, hmap, hlike⟩, Library.sound_receive _ hu hst hm hlike⟩
  release hr hI := by
    cases hr with
    | release hst hm ha => exact ⟨Library.sound_fail hst hm ha, hv.released_keeps _ hI⟩

theorem Faithful.step (hf : Faithful lib files Like I roots s) (hu : lib.Uniform files Like)
    (hv : h.Serves lib Like I) (hs : s.Consistent) (id : ResolutionId) :
    Faithful lib files Like I roots (s.step h id) := by
  have hnext : (s.perform h (.step id)).Consistent := hs.perform (.step id)
  have hf' := (stable_faithful hu hv).perform hf hs hnext nofun
  have hroot : (Move.step id).root? = none := rfl
  rwa [hroot, Option.toList_none, List.append_nil] at hf'

/-- Every run is faithful. -/
theorem Faithful.run {state : σ} (hu : lib.Uniform files Like) (hv : h.Serves lib Like I)
    (hI : I state) {moves : List Move} (hm : ∀ p ∈ Move.roots moves, p ∈ files) :
    Faithful lib files Like I (Move.roots moves) ((initial state).run h moves) :=
  (stable_faithful hu hv).run hI hm fun before _ => (consistent_initial state).run before

end System

end CssModules
