import CssModules.Proofs.Resolution.Faithful
import Mathlib.Data.List.TakeWhile

namespace CssModules

open Relation

variable {σ : Type} {h : Host σ} {lib : Library} {files : Set Path} {I : σ → Prop}

namespace Task

/-- How a task goes on with the result of the stylesheet that it asked for. -/
inductive Resumes (frames : List Frame) : Except Error TokenMap → Control × List Frame → Prop
  | ok (finished : FinishedMap) : Resumes frames (.ok finished.map) (receive finished frames)
  | error (e : Error) : Resumes frames (.error e) (fail frames e)

/-- How a task leaves a stylesheet with the result of its compositions. -/
inductive Leaves (p : Path) (outer : List Frame) :
    Except Error TokenMap → Control × List Frame → Prop
  | ok {f : Frame} (m : TokenMap) (hf : f.path = p) :
      Leaves p outer (.ok m) (.complete m, f :: outer)
  | error {f : Frame} (e : Error) (hf : f.path = p) :
      Leaves p outer (.error e) (.release e, f :: outer)

theorem cycleError_of_mem {chain : List Path} {p : Path}
    (hp : p.location ∈ chain.map Path.location) : cycleError chain p =
      .cyclicComposition (chain.dropWhile (fun q => !q.same p) ++ [p]) := by
  have hne : (chain.dropWhile fun q => !q.same p).isEmpty = false := by
    rw [List.isEmpty_eq_false_iff]
    obtain ⟨q, hq, hl⟩ := List.mem_map.1 hp
    intro hn
    have hs := List.dropWhile_eq_nil_iff.1 hn q hq
    simp [Path.same, ← Path.location.eq_def, hl] at hs
  simp only [cycleError, hne, Bool.false_eq_true, ↓reduceIte]

theorem blame_of_ne {f : Frame} {c : Pending} {e : Error} (hp : f.pending = some c)
    (outer : List Frame)
    (hne : ∀ missing : Path, missing.same c.target → e ≠ .stylesheetNotFound missing) :
    blame (f :: outer) e = e := by
  unfold blame
  split
  · next hfs =>
    obtain ⟨rfl, rfl⟩ := List.cons.inj hfs
    simp only [hp]
    split
    · next hm => exact absurd rfl (hne _ hm)
    · rfl
  · rfl

end Task

namespace System

variable {s : System σ} {id : ResolutionId} {p : Path} {frames outer : List Frame} {f : Frame}

def At (s : System σ) (id : ResolutionId) (next : Control × List Frame) : Prop :=
  s.task? id = some ⟨id, next.1, next.2⟩

section Step

theorem step_of_at {next : Control × List Frame} (ht : s.At id next) :
    s.step h id = s.stepTask h ⟨id, next.1, next.2⟩ := by
  have ht' : s.task? id = some ⟨id, next.1, next.2⟩ := ht
  rw [step, ht']

theorem at_setTask {s' : System σ} {next next' : Control × List Frame} (ht : s.At id next)
    (hs : s'.tasks = s.tasks) : (s'.setTask ⟨id, next'.1, next'.2⟩).At id next' := by
  have hT : Turn s (s'.setTask ⟨id, next'.1, next'.2⟩) _ ⟨id, next'.1, next'.2⟩ :=
    turn_setTask ht hs
  exact hT.self

theorem at_notify_setTask {s' : System σ} {next next' : Control × List Frame} (ht : s.At id next)
    (hs : s'.tasks = s.tasks) : (s'.notify.setTask ⟨id, next'.1, next'.2⟩).At id next' := by
  have hT : Turn s (s'.notify.setTask ⟨id, next'.1, next'.2⟩) _ ⟨id, next'.1, next'.2⟩ :=
    turn_notify_setTask ht hs
  exact hT.self

theorem at_step_enter (ht : s.At id (.claim p, frames)) (hn : s.cache.slot? p.location = none) :
    (s.step h id).At id (Task.enter h p frames s.state).1 := by
  rw [step_of_at ht]
  simp only [stepTask, claim, hn]
  exact at_setTask ht rfl

theorem at_step_hit {finished : FinishedMap} (ht : s.At id (.claim p, frames))
    (hs : s.cache.slot? p.location = some (.ready finished)) :
    (s.step h id).At id (Task.receive finished frames) := by
  rw [step_of_at ht]
  simp only [stepTask, claim, hs]
  exact at_setTask ht rfl

theorem at_step_refuse (ht : s.At id (.claim p, frames))
    (hs : s.cache.slot? p.location = some (.inProgress id)) :
    (s.step h id).At id (Task.fail frames (Task.cycleError (Task.chain frames) p)) := by
  rw [step_of_at ht]
  simp only [stepTask, claim, hs, BEq.rfl, Bool.true_or, ↓reduceIte]
  exact at_setTask ht rfl

theorem at_step_complete {m : TokenMap} (ht : s.At id (.complete m, f :: outer)) :
    (s.step h id).At id (Task.receive ⟨s.finished, m⟩ outer) := by
  rw [step_of_at ht]
  exact at_notify_setTask ht rfl

theorem at_step_release {e : Error} (ht : s.At id (.release e, f :: outer)) :
    (s.step h id).At id (Task.fail outer e) := by
  rw [step_of_at ht]
  exact at_notify_setTask ht rfl

theorem answer?_eq_some_iff {answer : Except Error FinishedMap} : s.answer? id = some answer ↔
    ∃ frames, s.At id (.done answer, frames) := by
  simp only [answer?, At]
  cases ht : s.task? id with
  | none => simp
  | some t =>
    obtain rfl := id_of_task? ht
    obtain ⟨tid, control, frames⟩ := t
    cases control <;> simp

theorem run_replicate_of_answer? {answer : Except Error FinishedMap}
    (ha : s.answer? id = some answer) (n : ℕ) : s.run h (List.replicate n (.step id)) = s := by
  obtain ⟨frames, ht⟩ := answer?_eq_some_iff.1 ha
  induction n with
  | zero => rfl
  | succ n ih =>
    rw [List.replicate_succ']
    simp only [run_append, ih, run_singleton, perform]
    exact step_of_at ht

theorem runAlone_eq_run (n : ℕ) (s : System σ) :
    s.runAlone h id n = s.run h (List.replicate n (.step id)) := by
  induction n generalizing s with
  | zero => rfl
  | succ n ih =>
    rw [runAlone]
    split
    · next answer ha => exact (run_replicate_of_answer? ha _).symm
    · exact ih _

end Step

theorem others_step (ho : ∀ {id' : ResolutionId} {t : Task}, s.task? id' = some t → id' ≠ id →
    ∃ answer, t.control = .done answer) {id' : ResolutionId} {t : Task}
    (ht : (s.step h id).task? id' = some t) (hne : id' ≠ id) : ∃ answer, t.control = .done answer := by
  cases hu : s.task? id with
  | none =>
    rw [System.step, hu] at ht
    exact ho ht hne
  | some u =>
    obtain rfl := id_of_task? hu
    rw [System.step, hu] at ht
    obtain ⟨u', hid, hT⟩ := (stepTask_act h s u).turn hu
    obtain ⟨v, hv, hvt⟩ := hT.of_other (hid ▸ hne) ht
    obtain ⟨answer, hd⟩ := ho hv hne
    rcases hvt with rfl | rfl
    · exact ⟨answer, hd⟩
    · exact ⟨answer, by simp [Task.notified, hd]⟩

theorem others_start (hd : ∀ {id : ResolutionId} {t : Task}, s.task? id = some t →
    ∃ answer, t.control = .done answer) (p : Path) {id' : ResolutionId} {t : Task}
    (ht : (s.start s.freshId p).task? id' = some t) (hne : id' ≠ s.freshId) :
    ∃ answer, t.control = .done answer := by
  rw [task?_start, if_neg hne] at ht
  exact hd ht

theorem done_of_others {answer : Except Error FinishedMap} (ha : s.answer? id = some answer)
    (ho : ∀ {id' : ResolutionId} {t : Task}, s.task? id' = some t → id' ≠ id →
      ∃ answer, t.control = .done answer) {id' : ResolutionId} {t : Task}
    (ht : s.task? id' = some t) : ∃ answer, t.control = .done answer := by
  by_cases hid : id' = id
  · subst hid
    obtain ⟨frames, hat⟩ := answer?_eq_some_iff.1 ha
    cases hat.symm.trans ht
    exact ⟨answer, rfl⟩
  · exact ho ht hid

theorem owner_eq_of_others (hs : s.Consistent) (ho : ∀ {id' : ResolutionId} {t : Task},
    s.task? id' = some t → id' ≠ id → ∃ answer, t.control = .done answer) {owner : ResolutionId}
    {l : Location} (hl : s.cache.slot? l = some (.inProgress owner)) : owner = id := by
  by_contra hne
  obtain ⟨t, ht, hmem⟩ := hs.slot?_iff.1 hl
  obtain ⟨answer, hd⟩ := ho ht hne
  have hset := hs.settled ht
  rw [hd] at hset
  have hnil : t.frames = [] := hset
  simp [hnil] at hmem

/-- A faithful system in which all resolutions but one have their answers. -/
structure Lone (lib : Library) (files : Set Path) (I : σ → Prop) (id : ResolutionId)
    (s : System σ) : Prop where
  consistent : s.Consistent
  faithful : ∃ roots, Faithful lib files Eq I roots s
  others {id' : ResolutionId} {t : Task} : s.task? id' = some t → id' ≠ id →
    ∃ answer, t.control = .done answer

namespace Lone

theorem step (hs : Lone lib files I id s) (hu : lib.Uniform files Eq) (hv : h.Serves lib Eq I) :
    Lone lib files I id (s.step h id) where
  consistent := hs.consistent.perform (.step id)
  faithful := by
    obtain ⟨roots, hf⟩ := hs.faithful
    exact ⟨_, Faithful.step hf hu hv hs.consistent id⟩
  others := others_step hs.others

theorem run (hs : Lone lib files I id s) (hu : lib.Uniform files Eq) (hv : h.Serves lib Eq I)
    (n : ℕ) : Lone lib files I id (s.run h (List.replicate n (.step id))) := by
  induction n generalizing s with
  | zero => exact hs
  | succ n ih => exact ih (hs.step hu hv)

theorem stacked (hs : Lone lib files I id s) (ht : s.At id (.claim p, frames)) :
    ∃ root, lib.Stacked files Eq root frames p := by
  obtain ⟨roots, hf⟩ := hs.faithful
  obtain ⟨root, _, hsound⟩ := hf.task ht
  exact ⟨root, hsound.stacked rfl⟩

/-- What a lone task asks for is free and new, or finished with the map that it comes to, or one of
those that it is inside of. -/
theorem slot?_cases (hs : Lone lib files I id s) (hu : lib.Uniform files Eq)
    (ht : s.At id (.claim p, frames)) :
    (s.cache.slot? p.location = none ∧ p.location ∉ (Task.chain frames).map Path.location) ∨
    (∃ finished, s.cache.slot? p.location = some (.ready finished) ∧
      lib.Evaluates (Task.chain frames) (.request p) (.ok finished.map)) ∨
    (s.cache.slot? p.location = some (.inProgress id) ∧
      p.location ∈ (Task.chain frames).map Path.location) := by
  have hown := hs.consistent.owned p.location id
  rw [places_of_task? ht, Task.mem_places_iff] at hown
  cases hslot : s.cache.slot? p.location with
  | none =>
    rw [Cache.owner?_of_slot?_eq_none hslot] at hown
    exact .inl ⟨rfl, fun hm => nomatch hown.2 hm⟩
  | some slot =>
    cases slot with
    | inProgress owner =>
      have ho := Cache.owner?_eq_some_iff.2 hslot
      obtain rfl := owner_eq_of_others hs.consistent hs.others hslot
      exact .inr (.inr ⟨rfl, hown.1 ho⟩)
    | ready finished =>
      obtain ⟨root, hst⟩ := hs.stacked ht
      obtain ⟨roots, hf⟩ := hs.faithful
      obtain ⟨q, hq, hl, m, hm, rfl⟩ := hf.ready hslot
      obtain ⟨m', hm', rfl⟩ := hst.respell hu hm hq hl
      exact .inr (.inl ⟨finished, rfl, hm'⟩)

end Lone

def Leads (h : Host σ) (id : ResolutionId) (s : System σ) (P : Control × List Frame → Prop) :
    Prop :=
  ∃ n next, P next ∧ (s.run h (List.replicate n (.step id))).At id next

namespace Leads

variable {P Q : Control × List Frame → Prop}

theorem here {next : Control × List Frame} (hP : P next) (ht : s.At id next) : Leads h id s P :=
  ⟨0, next, hP, ht⟩

theorem next (hl : Leads h id (s.step h id) P) : Leads h id s P := by
  obtain ⟨n, next, hP, ht⟩ := hl
  exact ⟨n + 1, next, hP, ht⟩

theorem trans (hl : Leads h id s P) (hs : Lone lib files I id s) (hu : lib.Uniform files Eq)
    (hv : h.Serves lib Eq I)
    (hq : ∀ s' next, Lone lib files I id s' → P next → s'.At id next → Leads h id s' Q) :
    Leads h id s Q := by
  obtain ⟨n, next, hP, ht⟩ := hl
  obtain ⟨m, next', hQ, ht'⟩ := hq _ _ (hs.run hu hv n) hP ht
  refine ⟨n + m, next', hQ, ?_⟩
  rwa [← List.replicate_append_replicate, run_append]

end Leads

/-- Whether a lone task that is at a goal inside of a chain goes on with a result. -/
def Follows (h : Host σ) (lib : Library) (files : Set Path) (I : σ → Prop) (id : ResolutionId)
    (chain : List Path) (r : Except Error TokenMap) : Goal → Prop
  | .request p => ∀ s frames, Lone lib files I id s → chain = Task.chain frames →
    s.At id (.claim p, frames) → Leads h id s (Task.Resumes frames r)
  | .compose p tokens rest => ∀ s outer, Lone lib files I id s → chain = Task.chain outer ++ [p] →
    s.At id (Task.fold p outer tokens rest) → Leads h id s (Task.Leaves p outer r)

theorem Follows.ask {tokens : TokenMap} {localAlias specifier : String} {names : List String}
    {q : Path} {rest : List Composition} {r : Except Error TokenMap}
    (hq : Follows h lib files I id (Task.chain outer ++ [p]) r (.request q))
    (hs : Lone lib files I id s) (ht : s.At id
      (Task.fold p outer tokens (⟨localAlias, names, .file specifier q⟩ :: rest))) :
    Leads h id s (Task.Resumes
      (⟨p, tokens, some ⟨localAlias, names, specifier, q⟩, rest⟩ :: outer) r) := by
  simp only [Task.fold] at ht
  exact hq s _ hs (by rw [Task.chain_cons]) ht

end System

namespace Library

variable {id : ResolutionId} {p : Path} {frames : List Frame} {s : σ}

theorem enter_of_unreadable {e : Error} (hv : h.Serves lib Eq I) (hI : I s)
    (hr : lib.read p = .error e) :
    (Task.enter h p frames s).1 = (.release e, ⟨p, .empty, none, []⟩ :: frames) := by
  have hread := (hv.parse p hI).trans hr
  unfold Task.enter
  split
  · next he =>
    rw [he] at hread
    cases hread
    rfl
  · next he =>
    rw [he] at hread
    cases hread

theorem enter_of_readable {sheet : Stylesheet} (hv : h.Serves lib Eq I) (hI : I s)
    (hr : lib.read p = .ok sheet) : (Task.enter h p frames s).1 =
      Task.fold p frames (lib.declared p sheet.localNames) sheet.compositions := by
  have hread := (hv.parse p hI).trans hr
  have hkeep := hv.parse_keeps p hI
  unfold Task.enter
  split
  · next he =>
    rw [he] at hread
    cases hread
  · next he =>
    rw [he] at hread hkeep
    cases hread
    rw [← hv.declare p sheet.localNames hkeep]

/-- A lone task does what the evaluation does. -/
theorem Evaluates.follows (hu : lib.Uniform files Eq) (hv : h.Serves lib Eq I) {chain : List Path}
    {g : Goal} {r : Except Error TokenMap} (he : lib.Evaluates chain g r) :
    System.Follows h lib files I id chain r g := by
  induction he with
  | @cycle chain p hp =>
    rintro s frames hs rfl ht
    obtain ⟨_, hn⟩ | ⟨finished, _, hm⟩ | ⟨hslot, _⟩ := hs.slot?_cases hu ht
    · exact absurd hp hn
    · cases hm.deterministic (.cycle hp)
    · have ht' := System.at_step_refuse (h := h) ht hslot
      rw [Task.cycleError_of_mem hp] at ht'
      exact .next (.here (.error _) ht')
  | @unreadable chain p e hp hr =>
    rintro s frames hs rfl ht
    have he := Evaluates.unreadable hp hr
    obtain ⟨hn, _⟩ | ⟨finished, _, hm⟩ | ⟨_, hm⟩ := hs.slot?_cases hu ht
    · obtain ⟨roots, hf⟩ := hs.faithful
      have ht' := System.at_step_enter (h := h) ht hn
      rw [enter_of_unreadable hv hf.state hr] at ht'
      exact .next (.next (.here (.error e) (System.at_step_release ht')))
    · cases hm.deterministic he
    · exact absurd hm hp
  | @readable chain p sheet r hp hr he ih =>
    rintro s frames hs rfl ht
    have he' := Evaluates.readable hp hr he
    obtain ⟨hn, _⟩ | ⟨finished, hslot, hm⟩ | ⟨_, hm⟩ := hs.slot?_cases hu ht
    · obtain ⟨roots, hf⟩ := hs.faithful
      have ht' := System.at_step_enter (h := h) ht hn
      rw [enter_of_readable hv hf.state hr] at ht'
      have hs' := hs.step hu hv
      refine .next ((ih _ frames hs' rfl ht').trans hs' hu hv ?_)
      intro s'' next _ hleaves ht''
      cases hleaves with
      | ok m => exact .next (.here (.ok ⟨s''.finished, m⟩) (System.at_step_complete ht''))
      | error e => exact .next (.here (.error e) (System.at_step_release ht''))
    · cases hm.deterministic he'
      exact .next (.here (.ok finished) (System.at_step_hit ht hslot))
    · exact absurd hm hp
  | finished =>
    rintro s outer hs rfl ht
    exact .here (.ok _ rfl) ht
  | everywhere _ ih =>
    rintro s outer hs rfl ht
    simp only [Task.fold] at ht
    exact ih s outer hs rfl ht
  | here hi _ ih =>
    rintro s outer hs rfl ht
    simp only [Task.fold, Task.identifiersOf_of_identifiers? hi] at ht
    exact ih s outer hs rfl ht
  | unknownHere hm =>
    rintro s outer hs rfl ht
    simp only [Task.fold, Task.identifiersOf_of_missing? hm] at ht
    exact .here (.error _ rfl) ht
  | file hq hi _ ihq ih =>
    rintro s outer hs rfl ht
    refine (System.Follows.ask ihq hs ht).trans hs hu hv ?_
    intro s' next hs' hresumes ht'
    cases hresumes with
    | ok finished =>
      simp only [Task.receive, Task.identifiersOf_of_identifiers? hi] at ht'
      exact ih s' outer hs' rfl ht'
  | unknownThere hq hm ihq =>
    rintro s outer hs rfl ht
    refine (System.Follows.ask ihq hs ht).trans hs hu hv ?_
    intro s' next hs' hresumes ht'
    cases hresumes with
    | ok finished =>
      simp only [Task.receive, Task.identifiersOf_of_missing? hm, Task.chain_cons] at ht'
      exact .here (.error _ rfl) ht'
  | missing hq hm ihq =>
    rintro s outer hs rfl ht
    refine (System.Follows.ask ihq hs ht).trans hs hu hv ?_
    intro s' next hs' hresumes ht'
    cases hresumes with
    | error e =>
      simp only [Task.fail, Task.blame, hm, ↓reduceIte, Task.chain_cons] at ht'
      exact .here (.error _ rfl) ht'
  | @failed chain p tokens localAlias names specifier q e rest hq hne ihq =>
    rintro s outer hs rfl ht
    refine (System.Follows.ask ihq hs ht).trans hs hu hv ?_
    intro s' next hs' hresumes ht'
    cases hresumes with
    | error e =>
      let c : Pending := ⟨localAlias, names, specifier, q⟩
      have hb : Task.blame (⟨p, tokens, some c, rest⟩ :: outer) e = e :=
        Task.blame_of_ne (c := c) rfl outer hne
      simp only [Task.fail] at ht'
      rw [hb] at ht'
      exact .here (.error e rfl) ht'

end Library

end CssModules
