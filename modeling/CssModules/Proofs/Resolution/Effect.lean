import CssModules.Proofs.Resolution.Flight
import CssModules.Proofs.Resolution.Sequential
import CssModules.Proofs.Resolution.Supply

namespace CssModules

open Relation

def Control.Fails : Control → Prop
  | .release _ => True
  | .done (.error _) => True
  | _ => False

theorem Control.not_fails_of_request? {control : Control} {p : Path}
    (h : control.request? = some p) : ¬ control.Fails := by
  cases control with
  | claim | wait => exact id
  | complete | release | done => cases h

theorem Task.fails_fail (frames : List Frame) (e : Error) : (fail frames e).1.Fails := by
  cases frames <;> trivial

/-- Whether every finished stylesheet can be reached from some files, and whatever it composes from
is finished too. -/
def Cache.Closed (read : Path → Except Error Stylesheet) (files : Set Path) (c : Cache) : Prop :=
  ∀ l finished, c.get? l = some finished → ∃ p ∈ files, ∃ q,
    ReflTransGen (ComposesFrom read) p q ∧ q.location = l ∧ ∃ sheet, read q = .ok sheet ∧
      ∀ target ∈ Composition.targets sheet.compositions, (c.get? target.location).isSome

namespace System

variable {read : Path → Except Error Stylesheet} {n : Naming} {name? : Path → Option String}
  {files : Set Path} {base s s' : System Session} {root : Path} {id : ResolutionId}

/-- How often a stylesheet has been asked for since a resolution began: not at all, or once, and then
it was not finished before, and is being worked on or finished unless the resolution has failed. -/
def AskedOnce (base s : System Session) (control : Control) (l : Location) : Prop :=
  s.state.tally Event.asked? l = base.state.tally Event.asked? l ∨
    (s.state.tally Event.asked? l = base.state.tally Event.asked? l + 1 ∧
      base.cache.get? l = none ∧ (s.cache.slot? l ≠ none ∨ control.Fails))

/-- A system in which all resolutions but one have their answers. -/
structure Alone (id : ResolutionId) (s : System Session) : Prop where
  consistent : s.Consistent
  others {id' : ResolutionId} {t : Task} : s.task? id' = some t → id' ≠ id →
    ∃ answer, t.control = .done answer

/-- What a resolution of `root` alone has done so far to a system that was `base` when it began. -/
structure Effect (read : Path → Except Error Stylesheet) (files : Set Path) (base : System Session)
    (root : Path) (id : ResolutionId) (s : System Session) : Prop extends Alone id s where
  kept : base.cache.Grows s.cache
  added {l : Location} {finished : FinishedMap} : s.cache.get? l = some finished →
    base.cache.get? l = some finished ∨
      ∃ q, q.location = l ∧ ReflTransGen (ComposesFrom read) root q
  closed : s.cache.Closed read files
  task : ∃ t, s.task? id = some t ∧ Task.Progress read s.cache root t.control t.frames ∧
    ∀ l, AskedOnce base s t.control l

/-- A system in which all resolutions have their answers, and what is finished composes only from
what is. -/
structure Quiet (read : Path → Except Error Stylesheet) (files : Set Path) (s : System Session) :
    Prop where
  consistent : s.Consistent
  done {id : ResolutionId} {t : Task} : s.task? id = some t → ∃ answer, t.control = .done answer
  closed : s.cache.Closed read files

theorem AskedOnce.of_slot? {control control' : Control} {l : Location}
    (h : AskedOnce base s control l) (hc : ¬ control.Fails)
    (ht : s'.state.tally Event.asked? l = s.state.tally Event.asked? l)
    (hs : s.cache.slot? l ≠ none → s'.cache.slot? l ≠ none) : AskedOnce base s' control' l := by
  rcases h with h | ⟨h, hbase, hslot⟩
  · exact .inl (ht.trans h)
  · exact .inr ⟨ht.trans h, hbase, .inl (hs (hslot.resolve_right hc))⟩

theorem AskedOnce.of_fails {control control' : Control} {l : Location}
    (h : AskedOnce base s control l) (hc : control'.Fails)
    (ht : s'.state.tally Event.asked? l = s.state.tally Event.asked? l) :
    AskedOnce base s' control' l := by
  rcases h with h | ⟨h, hbase, _⟩
  · exact .inl (ht.trans h)
  · exact .inr ⟨ht.trans h, hbase, .inr hc⟩

theorem Consistent.get?_chain (hs : s.Consistent) {t : Task} (ht : s.task? id = some t)
    {frames : List Frame} (hp : Task.places t.frames = Task.places frames) {q : Path}
    (hq : q ∈ Task.chain frames) :
    s.cache.get? q.location = none := by
  obtain rfl := id_of_task? ht
  have hown : s.cache.owner? q.location = some t.id := by
    rw [hs.owner?_eq_iff ht, hp, Task.mem_places_iff]
    exact List.mem_map_of_mem hq
  exact Cache.get?_of_owner?_eq_some hown

namespace Effect

variable {t t' : Task} {p : Path} {control : Control}
  {frames outer : List Frame} {f : Frame}

theorem turn (hs : Effect read files base root id s) (hroot : root ∈ files) (ha : Alone id s')
    (hgrows : s.cache.Grows s'.cache)
    (hnew : ∀ l finished, s'.cache.get? l = some finished → s.cache.get? l = some finished ∨
      ∃ q, q.location = l ∧ ReflTransGen (ComposesFrom read) root q ∧ ∃ sheet, read q = .ok sheet ∧
        ∀ target ∈ Composition.targets sheet.compositions, (s.cache.get? target.location).isSome)
    (ht : s'.task? id = some t') (hgo : Task.Progress read s'.cache root t'.control t'.frames)
    (hasked : ∀ l, AskedOnce base s' t'.control l) : Effect read files base root id s' where
  toAlone := ha
  kept l finished hl := hgrows _ _ (hs.kept l finished hl)
  added hl := by
    rcases hnew _ _ hl with hl | ⟨q, hq, hreach, _⟩
    · exact hs.added hl
    · exact .inr ⟨q, hq, hreach⟩
  closed l finished hl := by
    rcases hnew _ _ hl with hl | ⟨q, hq, hreach, sheet, hr, hall⟩
    · obtain ⟨r, hr, q, hreach, hq, sheet, hread, hall⟩ := hs.closed l finished hl
      exact ⟨r, hr, q, hreach, hq, sheet, hread, fun target hm => hgrows.isSome (hall target hm)⟩
    · exact ⟨root, hroot, q, hreach, hq, sheet, hr, fun target hm => hgrows.isSome (hall target hm)⟩
  task := ⟨t', ht, hgo, hasked⟩

theorem enter (hs : Effect read files base root t.id s) (hroot : root ∈ files)
    (ht : s.task? t.id = some t) (ha : t.control.request? = some p)
    (hn : s.cache.slot? p.location = none) {state : Session}
    (he : Task.enter (Session.host read n name?) p t.frames s.state = ((control, frames), state))
    (hs' : s' = { s with
      cache := (t.rouse s.cache).put p.location (.inProgress t.id)
      state := state }.setTask ⟨t.id, control, frames⟩)
    (halone : Alone t.id s') : Effect read files base root t.id s' := by
  have hslot (l : Location) : s'.cache.slot? l =
      if l = p.location then some (.inProgress t.id) else s.cache.slot? l := by
    rw [hs', cache_setTask, Cache.slot?_put, Task.slot?_rouse]
  have hfree : s.cache.get? p.location = none := by rw [Cache.get?, hn]
  have hget (l : Location) : s'.cache.get? l = s.cache.get? l := by
    rw [hs', cache_setTask, Cache.get?_put_inProgress]
    split
    · next hl => rw [hl, hfree]
    · exact Cache.get?_congr (t.slot?_rouse s.cache l)
  have htally (l : Location) : s'.state.tally Event.asked? l =
      s.state.tally Event.asked? l + if p.location = l then 1 else 0 := by
    have hasked := Session.tally_asked_enter read n name? p t.frames s.state
    rw [he] at hasked
    rw [hs', state_setTask, hasked, Session.tally_record_of_some _ rfl]
  obtain ⟨u, hu, hgo, hasked⟩ := hs.task
  obtain rfl := Option.some.inj (ht.symm.trans hu)
  have hc := Control.not_fails_of_request? ha
  have hT : Turn s s' t ⟨t.id, control, frames⟩ := hs' ▸ turn_setTask ht rfl
  refine hs.turn hroot halone (fun l _ => (hget l).trans) (fun l _ hl => .inl (hget l ▸ hl)) hT.self
    ?_ fun l => ?_
  · have hl := (hgo.linked ha).grows fun l _ => (hget l).trans
    have hchain (q : Path) (hq : q ∈ Task.chain t.frames ++ [p]) :
        s'.cache.get? q.location = none := by
      rw [hget]
      rcases List.mem_append.1 hq with hq | hq
      · exact hs.consistent.get?_chain ht rfl hq
      · rw [List.mem_singleton.1 hq, hfree]
    have hr : Task.Progress read s'.cache root
        (Task.enter (Session.host read n name?) p t.frames s.state).1.1
        (Task.enter (Session.host read n name?) p t.frames s.state).1.2 :=
      Task.progress_enter s.state hl hchain
    rwa [he] at hr
  · by_cases hl : l = p.location
    · subst hl
      rcases hasked p.location with h | ⟨_, _, h⟩
      · have hbase : base.cache.get? p.location = none := by
          by_contra hbase
          obtain ⟨finished, hf⟩ := Option.ne_none_iff_exists'.1 hbase
          cases hfree.symm.trans (hs.kept _ _ hf)
        refine .inr ⟨by rw [htally, h, if_pos rfl], hbase, .inl ?_⟩
        rw [hslot, if_pos rfl]
        exact Option.some_ne_none _
      · exact absurd hn (h.resolve_right hc)
    · refine (hasked l).of_slot? hc (by rw [htally, if_neg (Ne.symm hl), Nat.add_zero]) ?_
      rw [hslot, if_neg hl]
      exact id

theorem move (t' : Task) (hs : Effect read files base root t'.id s) (hroot : root ∈ files)
    (ht : s.task? t'.id = some t) (ha : t.control.request? = some p) {c : Cache}
    (hc : ∀ l, c.slot? l = s.cache.slot? l) (hs' : s' = { s with cache := c }.setTask t')
    (halone : Alone t'.id s')
    (hgo : Task.Linked (s'.cache.Supplied read) root t.frames p →
      (∀ q ∈ Task.chain t.frames, s'.cache.get? q.location = none) →
      Task.Progress read s'.cache root t'.control t'.frames) :
    Effect read files base root t'.id s' := by
  have hget (l : Location) : s'.cache.get? l = s.cache.get? l := by
    rw [hs', cache_setTask]
    exact Cache.get?_congr (hc l)
  obtain ⟨u, hu, hgo', hasked⟩ := hs.task
  obtain rfl := Option.some.inj (ht.symm.trans hu)
  have hT : Turn s s' t t' := hs' ▸ turn_setTask ht rfl
  refine hs.turn hroot halone (fun l _ => (hget l).trans) (fun l _ hl => .inl (hget l ▸ hl)) hT.self
    ?_ fun l => ?_
  · refine hgo ((hgo'.linked ha).grows fun l _ => (hget l).trans) fun q hq => ?_
    rw [hget]
    exact hs.consistent.get?_chain ht rfl hq
  · refine (hasked l).of_slot? (Control.not_fails_of_request? ha) (by rw [hs', state_setTask]) ?_
    rw [hs', cache_setTask, hc]
    exact id

theorem complete (hs : Effect read files base root t.id s) (hroot : root ∈ files)
    (ht : s.task? t.id = some t) {map : TokenMap} (hc : t.control = .complete map)
    (hfr : t.frames = f :: outer) (he : Task.receive ⟨s.finished, map⟩ outer = (control, frames))
    (hs' : s' = ({ s with
      cache := s.cache.put f.path.location (.ready ⟨s.finished, map⟩)
      finished := s.finished + 1 }.notify).setTask ⟨t.id, control, frames⟩)
    (halone : Alone t.id s') : Effect read files base root t.id s' := by
  have hfree := Cache.get?_of_owner?_eq_some (hs.consistent.owner?_head ht hfr)
  have hget (l : Location) : s'.cache.get? l =
      if l = f.path.location then some ⟨s.finished, map⟩ else s.cache.get? l := by
    rw [hs', cache_setTask, cache_notify, Cache.get?_put_ready]
  have hgrows : s.cache.Grows s'.cache := fun _ _ => Cache.get?_of_ite hget hfree
  obtain ⟨u, hu, hgo, hasked⟩ := hs.task
  obtain rfl := Option.some.inj (ht.symm.trans hu)
  have hT : Turn s s' t ⟨t.id, control, frames⟩ := hs' ▸ turn_notify_setTask ht rfl
  have hreach := Task.reaches_receive ⟨s.finished, map⟩ outer
  rw [he] at hreach
  rw [hc, hfr] at hgo
  cases hgo with
  | complete hl hg =>
    refine hs.turn hroot halone hgrows (fun l finished hf => ?_) hT.self ?_ fun l => ?_
    · rw [hget] at hf
      split at hf
      · next he =>
        obtain ⟨sheet, hr, _, hall⟩ := hg
        refine .inr ⟨f.path, he.symm, hl.reachable, sheet, hr, fun target hm => ?_⟩
        exact (hall target hm).resolve_left List.not_mem_nil
      · exact .inl hf
    · have hr : Task.Progress read s'.cache root (Task.receive ⟨s.finished, map⟩ outer).1
          (Task.receive ⟨s.finished, map⟩ outer).2 :=
        Task.progress_receive (hl.grows hgrows) (by rw [hget, if_pos rfl])
          fun q => halone.consistent.get?_chain hT.self hreach.places
      rwa [he] at hr
    · refine (hasked l).of_slot? (by rw [hc]; exact id) (by rw [hs']; rfl) fun hslot => ?_
      rw [hs', cache_setTask, cache_notify, Cache.slot?_put]
      split
      · exact Option.some_ne_none _
      · exact hslot

theorem release (hs : Effect read files base root t.id s) (hroot : root ∈ files)
    (ht : s.task? t.id = some t) {e : Error} (hc : t.control = .release e)
    (hfr : t.frames = f :: outer) (he : Task.fail outer e = (control, frames))
    (hs' : s' = ({ s with
      cache := s.cache.release f.path.location
      state := (Session.host read n name?).released f.path s.state }.notify).setTask
        ⟨t.id, control, frames⟩) (halone : Alone t.id s') :
    Effect read files base root t.id s' := by
  have hfree := Cache.get?_of_owner?_eq_some (hs.consistent.owner?_head ht hfr)
  have hget (l : Location) : s'.cache.get? l = s.cache.get? l := by
    rw [hs', cache_setTask, cache_notify, Cache.get?_release]
    split
    · next hl => rw [hl, hfree]
    · rfl
  obtain ⟨u, hu, hgo, hasked⟩ := hs.task
  obtain rfl := Option.some.inj (ht.symm.trans hu)
  have hT : Turn s s' t ⟨t.id, control, frames⟩ := hs' ▸ turn_notify_setTask ht rfl
  have hreach := Task.reaches_fail outer e
  have hfails := Task.fails_fail outer e
  rw [he] at hreach hfails
  rw [hc, hfr] at hgo
  cases hgo with
  | release hl hfail =>
    refine hs.turn hroot halone (fun l _ => (hget l).trans) (fun l _ hl => .inl (hget l ▸ hl))
      hT.self ?_ fun l => ?_
    · have hchain (q : Path) (hq : q ∈ Task.chain outer ++ [f.path]) :
          s'.cache.get? q.location = none := by
        rcases List.mem_append.1 hq with hq | hq
        · exact halone.consistent.get?_chain hT.self hreach.places hq
        · rw [List.mem_singleton.1 hq, hget, hfree]
      have hr : Task.Progress read s'.cache root (Task.fail outer e).1 (Task.fail outer e).2 :=
        Task.progress_fail (hl.grows fun l _ => (hget l).trans)
          (hfail.anti fun l => (hget l).trans) hchain
      rwa [he] at hr
    · refine (hasked l).of_fails hfails ?_
      have htally : (s.state.record (.released f.path)).tally Event.asked? =
          s.state.tally Event.asked? := s.state.tally_record_of_none rfl
      rw [hs']
      exact congrFun htally l

theorem act (hs : Effect read files base root t.id s) (hroot : root ∈ files)
    (ht : s.task? t.id = some t) (hact : Act (Session.host read n name?) s t s')
    (halone : Alone t.id s') : Effect read files base root t.id s' := by
  cases hact with
  | idle => exact hs
  | enter ha hn he => exact hs.enter hroot ht ha hn he rfl halone
  | @hit p finished control frames ha hready hr =>
    refine hs.move ⟨t.id, control, frames⟩ hroot ht ha (t.slot?_rouse s.cache) rfl halone
      fun hl hfree => ?_
    have hm : (t.rouse s.cache).get? p.location = some finished := by
      rw [Cache.get?_congr (t.slot?_rouse s.cache _), Cache.get?_eq_some_iff, hready]
    have hgo := Task.progress_receive hl hm hfree
    rwa [hr] at hgo
  | @refuse p owner control frames ha hslot _ hf =>
    refine hs.move ⟨t.id, control, frames⟩ hroot ht ha (t.slot?_rouse s.cache) rfl halone
      fun hl hfree => ?_
    have hchain (q : Path) (hq : q ∈ Task.chain t.frames ++ [p]) :
        (t.rouse s.cache).get? q.location = none := by
      rcases List.mem_append.1 hq with hq | hq
      · exact hfree q hq
      · rw [List.mem_singleton.1 hq, Cache.get?, t.slot?_rouse, hslot]
    obtain ⟨cycle, hcycle, hsuffix, -⟩ := Task.cycleError_suffix (Task.chain t.frames) p
    rw [hcycle] at hf
    have hgo := Task.progress_fail hl ⟨_, hl.chainFrom, .cyclic hsuffix, hchain⟩ hchain
    rwa [hf] at hgo
  | @wait p _ ha =>
    refine hs.move { t with control := .wait p false } hroot ht ha (fun l => ?_) rfl halone
      fun hl _ => .wait hl
    rw [Cache.slot?_await, Task.slot?_rouse]
  | complete hc hfr hr => exact hs.complete hroot ht hc hfr hr rfl halone
  | release hc hfr hf => exact hs.release hroot ht hc hfr hf rfl halone

variable (n name?) in
theorem step (hs : Effect read files base root id s) (hroot : root ∈ files) :
    Effect read files base root id (s.step (Session.host read n name?) id) := by
  have halone : Alone id (s.step (Session.host read n name?) id) :=
    ⟨hs.consistent.perform (.step id), others_step hs.others⟩
  obtain ⟨t, ht, _⟩ := hs.task
  obtain rfl := id_of_task? ht
  have hact := stepTask_act (Session.host read n name?) s t
  rw [System.step, ht] at halone ⊢
  exact hs.act hroot ht hact halone

variable (n name?) in
theorem run (hs : Effect read files base root id s) (hroot : root ∈ files) (k : ℕ) :
    Effect read files base root id
      (s.run (Session.host read n name?) (List.replicate k (.step id))) := by
  induction k generalizing s with
  | zero => exact hs
  | succ k ih => exact ih (hs.step n name? hroot)

end Effect

section Quiet

variable {cwd p : Path} {fuel : ℕ} {answer : Except Error FinishedMap}

theorem Quiet.slot?_ne (hs : Quiet read files s) (l : Location) (id : ResolutionId) :
    s.cache.slot? l ≠ some (.inProgress id) := by
  intro hl
  obtain ⟨t, ht, hm⟩ := hs.consistent.slot?_iff.1 hl
  obtain ⟨answer, hd⟩ := hs.done ht
  have hset := hs.consistent.settled ht
  rw [hd] at hset
  have hnil : t.frames = [] := hset
  rw [hnil] at hm
  cases hm

theorem Quiet.resolve (hs : Quiet read files s) (hp : Path.absolute cwd p ∈ files)
    (hr : s.resolve (Session.host read n name?) fuel cwd p = (some answer, s')) :
    Effect read files s (Path.absolute cwd p) s.freshId s' ∧ s'.answer? s.freshId = some answer := by
  have hstart : Effect read files s (Path.absolute cwd p) s.freshId
      (s.start s.freshId (Path.absolute cwd p)) :=
    { consistent := hs.consistent.start _
      others := others_start hs.done _
      kept := fun _ _ hl => hl
      added := .inl
      closed := hs.closed
      task := ⟨_, by rw [task?_start, if_pos rfl], .claim .nil, fun _ => .inl rfl⟩ }
  obtain ⟨ha, rfl⟩ := Prod.mk.inj hr
  refine ⟨?_, ha⟩
  rw [runAlone_eq_run]
  exact hstart.run n name? hp fuel

theorem Effect.quiet (he : Effect read files base root id s) (ha : s.answer? id = some answer) :
    Quiet read files s where
  consistent := he.consistent
  done := done_of_others ha he.others
  closed := he.closed

theorem Reached.quiet (hr : Reached (Session.host read n name?) files Session.empty s) :
    Quiet read files s := by
  induction hr with
  | initial => exact ⟨consistent_initial _, nofun, nofun⟩
  | resolve _ hp hr ih =>
    obtain ⟨he, ha⟩ := ih.resolve hp hr
    exact he.quiet ha
  | clear _ ih =>
    refine ⟨ih.consistent.clear, ih.done, fun l finished hl => ?_⟩
    rw [Cache.get?_eq_some_iff, System.clear, Cache.slot?_clear, Option.filter_eq_some_iff] at hl
    cases hl.2

end Quiet

end System

theorem Library.Coherent.mem_of_reaches {lib : Library} {files : Set Path} (hc : lib.Coherent files)
    {p q : Path} (hp : p ∈ files) (h : ReflTransGen (ComposesFrom lib.read) p q) : q ∈ files := by
  induction h with
  | refl => exact hp
  | tail _ hstep ih =>
    obtain ⟨sheet, hr, hq⟩ := hstep
    exact hc.target_mem ih hr hq

theorem Cache.Closed.reaches {lib : Library} {files : Set Path} {c : Cache}
    (h : c.Closed lib.read files) (hc : lib.Coherent files) {p q : Path} (hp : p ∈ files)
    (hready : (c.get? p.location).isSome) (hq : ReflTransGen (ComposesFrom lib.read) p q) :
    (c.get? q.location).isSome := by
  induction hq with
  | refl => exact hready
  | @tail q q' hreach hstep ih =>
    obtain ⟨finished, hf⟩ := Option.isSome_iff_exists.1 ih
    obtain ⟨r, hr, q₁, hreach₁, hl, sheet₁, hread₁, hall⟩ := h _ _ hf
    obtain ⟨sheet, hread, hm⟩ := hstep
    have hread₁' := hc.read_eq (hc.mem_of_reaches hr hreach₁) (hc.mem_of_reaches hp hreach) hl hread₁
    cases hread.symm.trans hread₁'
    exact hall q' hm

namespace Session

/-- One more resolution leaves nothing half done, keeps every finished map, adds only those of
stylesheets that it can reach, and reads a stylesheet at most once and only if it was not finished.
If it fails, nothing of the chain at whose end the failure has come up is finished. -/
theorem resolve_effect (read : Path → Except Error Stylesheet) (n : Naming)
    (name? : Path → Option String) (files : Set Path) {s s' : System Session}
    (hs : System.Reached (host read n name?) files empty s) {cwd p : Path} {fuel : ℕ}
    {answer : Except Error FinishedMap} (hp : Path.absolute cwd p ∈ files)
    (hr : s.resolve (host read n name?) fuel cwd p = (some answer, s')) :
    let root := Path.absolute cwd p
    let lib := n.library read name?
    (∀ l id, s'.cache.slot? l ≠ some (.inProgress id)) ∧
    (∀ l finished, s.cache.get? l = some finished → s'.cache.get? l = some finished) ∧
    (∀ l finished, s'.cache.get? l = some finished → s.cache.get? l = some finished ∨
      ∃ q, q.location = l ∧ ReflTransGen (ComposesFrom read) root q) ∧
    (∀ l, s'.state.tally Event.asked? l = s.state.tally Event.asked? l ∨
      s'.state.tally Event.asked? l = s.state.tally Event.asked? l + 1 ∧ s.cache.get? l = none) ∧
    (∀ finished, answer = .ok finished →
      ∃ number, s'.cache.get? root.location = some ⟨number, finished.map⟩) ∧
    (∀ e, answer = .error e → ∃ chain, ChainFrom read root chain ∧ Raised read chain e ∧
      ∀ q ∈ chain, s'.cache.get? q.location = none) ∧
    (lib.Coherent files →
      (∀ finished, answer = .ok finished → ∀ q, ReflTransGen (ComposesFrom read) root q →
        (s'.cache.get? q.location).isSome) ∧
      ((∀ d e : Path, d.location = e.location → name? d = name? e) →
        (∀ className, ∀ a ∈ files, ∀ b ∈ files, a.location = b.location →
          n.scopedName name? className a = n.scopedName name? className b) →
        ∀ q ∈ files, ∀ finished, s'.cache.get? q.location = some finished →
          lib.Evaluates [] (.request q) (.ok finished.map))) := by
  intro root lib
  obtain ⟨he, ha⟩ := hs.quiet.resolve hp hr
  have hquiet := he.quiet ha
  obtain ⟨t, ht, hgo, hasked⟩ := he.task
  obtain ⟨frames, hat⟩ := System.answer?_eq_some_iff.1 ha
  obtain rfl := Option.some.inj (hat.symm.trans ht)
  have hok (finished : FinishedMap) (h : answer = .ok finished) :
      ∃ number, s'.cache.get? root.location = some ⟨number, finished.map⟩ := by
    subst h
    cases hgo with
    | finished hm => exact hm
  refine ⟨hquiet.slot?_ne, he.kept, fun _ _ => he.added, fun l => ?_, hok,
    fun e h => ?_, fun hc => ⟨fun finished h q hq => ?_, fun hmanifests hnames q hq finished hf => ?_⟩⟩
  · exact (hasked l).imp_right fun h => ⟨h.1, h.2.1⟩
  · subst h
    cases hgo with
    | failed he => exact he
  · obtain ⟨number, hm⟩ := hok finished h
    exact System.Quiet.closed hquiet |>.reaches hc hp (by rw [hm]; rfl) hq
  · have hu := hc.uniform hnames
    have hv := host_serves read n hmanifests
    have hI := Package.Memo.sound_nil name?
    obtain ⟨roots, hfaithful⟩ := ((hs.rested hu hv hI).resolveAt hu hv hp hr).faithful
    obtain ⟨q', hq', hl, m, hm, hmap⟩ := hfaithful.ready (Cache.get?_eq_some_iff.1 hf)
    obtain ⟨m', hm', hlike⟩ := hm.respell hu.congruence hc hq' hq hl
      fun names => hu.declared names hq' hq hl
    rwa [hmap, hlike]

theorem resolve_effect_twoStylesheets :
    let h := host (twoStylesheets ⟨"/p/a.css"⟩) namingBySpelling fun _ => none
    let lib := namingBySpelling.library (twoStylesheets ⟨"/p/a.css"⟩) fun _ => none
    let s := ((System.initial empty).resolve h 9 ⟨"/"⟩ ⟨"/p/a.css"⟩).2
    let s' := (s.resolve h 9 ⟨"/p"⟩ ⟨"b.css"⟩).2
    let b : TokenMap := ⟨[("b", "/p/b.css#b /p/a.css#a")]⟩
    System.Reached h twoPaths empty s ∧ Path.absolute ⟨"/p"⟩ ⟨"b.css"⟩ ∈ twoPaths ∧
      (s.resolve h 9 ⟨"/p"⟩ ⟨"b.css"⟩).1 = some (.ok ⟨1, b⟩) ∧
      s'.cache.get? (⟨"/p/a.css"⟩ : Path).location = some ⟨0, ⟨[("a", "/p/a.css#a")]⟩⟩ ∧
      s'.state.tally Event.asked? (⟨"/p/a.css"⟩ : Path).location =
        s.state.tally Event.asked? (⟨"/p/a.css"⟩ : Path).location ∧
      ∃ number, s'.cache.get? (⟨"/p/b.css"⟩ : Path).location = some ⟨number, b⟩ ∧
        lib.Evaluates [] (.request ⟨"/p/b.css"⟩) (.ok b) := by
  intro h lib s s' b
  have hb : Path.absolute ⟨"/p"⟩ ⟨"b.css"⟩ = ⟨"/p/b.css"⟩ := by decide +kernel
  have ha : Path.absolute ⟨"/"⟩ ⟨"/p/a.css"⟩ = ⟨"/p/a.css"⟩ := by decide +kernel
  have hmem : Path.absolute ⟨"/p"⟩ ⟨"b.css"⟩ ∈ twoPaths := by
    rw [hb]
    exact .inr rfl
  have hs : System.Reached h twoPaths empty s := by
    refine System.Reached.initial.of_isSome ?_ (by decide +kernel)
    rw [ha]
    exact .inl rfl
  have hanswer : (s.resolve h 9 ⟨"/p"⟩ ⟨"b.css"⟩).1 = some (.ok ⟨1, b⟩) := by decide +kernel
  have hready : s.cache.get? (⟨"/p/a.css"⟩ : Path).location =
      some ⟨0, ⟨[("a", "/p/a.css#a")]⟩⟩ := by decide +kernel
  have hresolve : s.resolve h 9 ⟨"/p"⟩ ⟨"b.css"⟩ = (some (.ok ⟨1, b⟩), s') :=
    Prod.mk.eta.symm.trans (congrArg (·, s') hanswer)
  obtain ⟨_, hkept, _, hasked, hok, _, hcoherent⟩ :=
    resolve_effect (twoStylesheets ⟨"/p/a.css"⟩) namingBySpelling (fun _ => none) twoPaths hs hmem
      hresolve
  obtain ⟨number, hnumber⟩ := hok _ rfl
  obtain ⟨_, hmap⟩ := hcoherent (coherent_twoStylesheets _)
  rw [hb] at hnumber
  refine ⟨hs, hmem, hanswer, hkept _ _ hready, ?_, number, hnumber, ?_⟩
  · refine (hasked _).resolve_right fun hn => ?_
    cases hready.symm.trans hn.2
  · exact hmap (fun _ _ _ => rfl) (scopedName_eq_twoPaths _ _) _ (.inr rfl) _ hnumber

def composingTwice (below : Path → List Composition) (p : Path) : Except Error Stylesheet :=
  if p.same ⟨"/p/c.css"⟩ then
    .ok ⟨["c"], [⟨"c", ["a"], .file "./a.css" ⟨"/p/./a.css"⟩⟩,
      ⟨"c", ["a"], .file "./a.css" ⟨"/p/a.css"⟩⟩]⟩
  else .ok ⟨["a"], below p⟩

/-- Where two spellings of a path are named differently, a finished map can be another than that of
the evaluation, and where they are read differently, something that has been reached can be
unfinished. -/
theorem resolve_effect_ne_evaluation :
    (let h := host (composingTwice fun _ => []) namingBySpelling fun _ => none
      let lib := namingBySpelling.library (composingTwice fun _ => []) fun _ => none
      let s := ((System.initial empty).resolve h 9 ⟨"/"⟩ ⟨"/p/c.css"⟩).2
      s.cache.get? (⟨"/p/c.css"⟩ : Path).location =
          some ⟨1, ⟨[("c", "/p/c.css#c /p/./a.css#a")]⟩⟩ ∧
        lib.Evaluates [] (.request ⟨"/p/c.css"⟩)
          (.ok ⟨[("c", "/p/c.css#c /p/./a.css#a /p/a.css#a")]⟩)) ∧
    (let read := composingTwice fun p =>
        if p = ⟨"/p/a.css"⟩ then [⟨"a", ["a"], .file "./d.css" ⟨"/p/d.css"⟩⟩] else []
      let h := host read namingByClass fun _ => none
      let s := (System.initial empty).resolve h 9 ⟨"/"⟩ ⟨"/p/c.css"⟩
      s.1 = some (.ok ⟨1, ⟨[("c", "c a")]⟩⟩) ∧
        ReflTransGen (ComposesFrom read) ⟨"/p/c.css"⟩ ⟨"/p/d.css"⟩ ∧
        s.2.cache.get? (⟨"/p/d.css"⟩ : Path).location = none) := by
  have hc (below : Path → List Composition) : composingTwice below ⟨"/p/c.css"⟩ =
      .ok ⟨["c"], [⟨"c", ["a"], .file "./a.css" ⟨"/p/./a.css"⟩⟩,
        ⟨"c", ["a"], .file "./a.css" ⟨"/p/a.css"⟩⟩]⟩ := rfl
  have ha (below : Path → List Composition) {p : Path} (hp : p.same ⟨"/p/c.css"⟩ = false) :
      composingTwice below p = .ok ⟨["a"], below p⟩ := by simp [composingTwice, hp]
  refine ⟨⟨by decide +kernel, ?_⟩, by decide +kernel, ?_, by decide +kernel⟩
  · have hown : (namingBySpelling.library (composingTwice fun _ => []) fun _ => none).declared
        ⟨"/p/c.css"⟩ ["c"] = ⟨[("c", "/p/c.css#c")]⟩ := by decide +kernel
    have hnested {p : Path} {m : TokenMap} (hp : p.same ⟨"/p/c.css"⟩ = false)
        (hm : (namingBySpelling.library (composingTwice fun _ => []) fun _ => none).declared p ["a"] =
          m) : (namingBySpelling.library (composingTwice fun _ => []) fun _ => none).Evaluates
            [⟨"/p/c.css"⟩] (.request p) (.ok m) := by
      refine .readable (fun hl => ?_) (ha (fun _ => []) hp) (hm ▸ .finished)
      exact beq_eq_false_iff_ne.1 hp (List.mem_singleton.1 hl)
    have hfirst := hnested (p := ⟨"/p/./a.css"⟩) (m := ⟨[("a", "/p/./a.css#a")]⟩)
      (by decide +kernel) (by decide +kernel)
    have hsecond := hnested (p := ⟨"/p/a.css"⟩) (m := ⟨[("a", "/p/a.css#a")]⟩)
      (by decide +kernel) (by decide +kernel)
    have hi (value : String) : (⟨[("a", value)]⟩ : TokenMap).identifiers? ["a"] = some [value] := rfl
    have hgain : ((⟨[("c", "/p/c.css#c")]⟩ : TokenMap).compose (Identifier.unescape "c")
        ["/p/./a.css#a"]).compose (Identifier.unescape "c") ["/p/a.css#a"] =
        ⟨[("c", "/p/c.css#c /p/./a.css#a /p/a.css#a")]⟩ := by decide +kernel
    refine .readable List.not_mem_nil (hc fun _ => []) ?_
    rw [hown]
    exact .file hfirst (hi _) (.file hsecond (hi _) (hgain ▸ .finished))
  · refine .tail (.single ⟨_, hc _, ?_⟩) ⟨_, ha _ (p := ⟨"/p/a.css"⟩) (by decide +kernel), ?_⟩
    · exact .tail _ (.head _)
    · exact .head _

end Session

end CssModules
