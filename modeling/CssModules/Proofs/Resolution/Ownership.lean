import CssModules.Proofs.Resolution.Run

namespace CssModules

open Relation

def Control.awaited? : Control → Option Location
  | .wait p _ => some p.location
  | _ => none

namespace Task

def places (frames : List Frame) : List Location := frames.map (·.path.location)

@[simp] theorem places_nil : places [] = [] := rfl

@[simp] theorem places_cons (f : Frame) (outer : List Frame) :
    places (f :: outer) = f.path.location :: places outer := rfl

theorem mem_places_iff {frames : List Frame} {l : Location} :
    l ∈ places frames ↔ l ∈ (chain frames).map Path.location := by
  simp [places, chain]

/-- What is done next fits the stylesheets that it is done inside of: it takes one to complete or
release it, and there is none left in the end. -/
def Settled : Control → List Frame → Prop
  | .complete _, frames => frames ≠ []
  | .release _, frames => frames ≠ []
  | .done _, frames => frames = []
  | _, _ => True

/-- Where a task goes on by itself: inside of stylesheets at certain places, and not to wait. -/
structure Reaches (next : Control × List Frame) (ls : List Location) : Prop where
  places : places next.2 = ls
  settled : Settled next.1 next.2
  awaited : next.1.awaited? = none

theorem Reaches.not_wait {control : Control} {frames : List Frame} {ls : List Location}
    (h : Reaches (control, frames) ls) (p : Path) : control ≠ .wait p false := by
  rintro rfl
  cases h.awaited

theorem reaches_fold (p : Path) (outer : List Frame) (tokens : TokenMap)
    (compositions : List Composition) :
    Reaches (fold p outer tokens compositions) (p.location :: places outer) := by
  induction compositions generalizing tokens with
  | nil => exact ⟨rfl, List.cons_ne_nil _ _, rfl⟩
  | cons c rest ih =>
    rw [fold]
    split
    · exact ih _
    · split
      · exact ih _
      · exact ⟨rfl, List.cons_ne_nil _ _, rfl⟩
    · exact ⟨rfl, trivial, rfl⟩

theorem reaches_receive (finished : FinishedMap) (frames : List Frame) :
    Reaches (receive finished frames) (places frames) := by
  cases frames with
  | nil => exact ⟨rfl, rfl, rfl⟩
  | cons f outer =>
    rw [receive]
    split
    · exact reaches_fold ..
    · split
      · exact reaches_fold ..
      · exact ⟨rfl, List.cons_ne_nil _ _, rfl⟩

theorem reaches_fail (frames : List Frame) (e : Error) :
    Reaches (fail frames e) (places frames) := by
  cases frames with
  | nil => exact ⟨rfl, rfl, rfl⟩
  | cons f outer => exact ⟨rfl, List.cons_ne_nil _ _, rfl⟩

theorem reaches_enter {σ : Type} (h : Host σ) (p : Path) (outer : List Frame) (s : σ) :
    Reaches (enter h p outer s).1 (p.location :: places outer) := by
  unfold enter
  split
  · exact ⟨rfl, List.cons_ne_nil _ _, rfl⟩
  · exact reaches_fold ..

theorem rest_lt_of_fold {p : Path} {outer frames : List Frame} {tokens : TokenMap}
    {compositions : List Composition} {control : Control} {f : Frame} {q : Path}
    (h : fold p outer tokens compositions = (control, f :: frames))
    (hc : control.request? = some q) :
    f.pending.isSome ∧ f.rest.length < compositions.length := by
  induction compositions generalizing tokens with
  | nil =>
    cases h
    cases hc
  | cons c rest ih =>
    rw [fold] at h
    split at h
    · exact (ih h).imp_right Nat.lt_succ_of_lt
    · split at h
      · exact (ih h).imp_right Nat.lt_succ_of_lt
      · cases h
        cases hc
    · cases h
      exact ⟨rfl, Nat.lt_succ_self _⟩

theorem receive_ne {finished : FinishedMap} {control : Control} {frames : List Frame} {q : Path}
    (hc : control.request? = some q) : receive finished frames ≠ (control, frames) := by
  intro h
  cases frames with
  | nil =>
    cases h
    cases hc
  | cons f outer =>
    rw [receive] at h
    split at h
    · next hp =>
      have hs := (rest_lt_of_fold h hc).1
      rw [hp] at hs
      cases hs
    · split at h
      · exact Nat.lt_irrefl _ (rest_lt_of_fold h hc).2
      · obtain ⟨rfl, _⟩ := Prod.mk.inj h
        cases hc

theorem fail_ne {e : Error} {control : Control} {frames frames' : List Frame} {q : Path}
    (hc : control.request? = some q) : fail frames e ≠ (control, frames') := by
  intro h
  cases frames with
  | nil =>
    cases h
    cases hc
  | cons f outer =>
    cases h
    cases hc

/-- Whether a task can go on without being woken up by chance. -/
def Able (t : Task) : Prop :=
  (∀ answer, t.control ≠ .done answer) ∧ ∀ p, t.control ≠ .wait p false

theorem awaited?_notified (t : Task) : t.notified.control.awaited? = t.control.awaited? := by
  unfold notified
  split
  · next h => rw [h]; rfl
  · rfl

theorem notified_ne_wait (t : Task) (p : Path) : t.notified.control ≠ .wait p false := by
  unfold notified
  split
  · nofun
  · next h => exact h p false

theorem settled_notified {t : Task} (h : Settled t.control t.frames) :
    Settled t.notified.control t.notified.frames := by
  unfold notified
  split
  · trivial
  · exact h

@[simp] theorem owner?_rouse (t : Task) (c : Cache) (l : Location) :
    (t.rouse c).owner? l = c.owner? l := Cache.owner?_congr (t.slot?_rouse c l)

theorem awaited?_rouse {t : Task} {c : Cache} (h : c.awaited? t.id = t.control.awaited?)
    (id : ResolutionId) :
    (t.rouse c).awaited? id = if id = t.id then none else c.awaited? id := by
  unfold rouse
  split
  · exact c.awaited?_wake t.id id
  · next hc =>
    split
    · next he =>
      rw [he, h]
      cases hw : t.control with
      | wait p notified => exact absurd hw (hc p notified)
      | _ => rfl
    · rfl

end Task

namespace System

variable {σ : Type} {h : Host σ} {s s' : System σ} {t t' : Task} {id : ResolutionId}

def places (s : System σ) (id : ResolutionId) : List Location :=
  ((s.task? id).map fun t => Task.places t.frames).getD []

def awaited? (s : System σ) (id : ResolutionId) : Option Location :=
  (s.task? id).bind (·.control.awaited?)

theorem places_of_task? (ht : s.task? id = some t) : s.places id = Task.places t.frames := by
  simp [places, ht]

theorem awaited?_of_task? (ht : s.task? id = some t) : s.awaited? id = t.control.awaited? := by
  simp [awaited?, ht]

/-- One task has moved on, and the others have at most been notified. -/
structure Turn (s s' : System σ) (t t' : Task) : Prop where
  length : s'.tasks.length = s.tasks.length
  before : s.task? t'.id = some t
  self : s'.task? t'.id = some t'
  other : (∀ id, id ≠ t'.id → s'.task? id = s.task? id) ∨
    ∀ id, id ≠ t'.id → s'.task? id = (s.task? id).map Task.notified

theorem turn_setTask (ht : s.task? t'.id = some t) (hs : s'.tasks = s.tasks) :
    Turn s (s'.setTask t') t t' := by
  have he (id : ResolutionId) : s'.task? id = s.task? id := by rw [task?, hs, task?]
  refine ⟨by simp [hs], ht, by simp [task?_setTask, he, ht], .inl ?_⟩
  intro id hid
  rw [task?_setTask, if_neg hid, he]

theorem turn_notify_setTask (ht : s.task? t'.id = some t) (hs : s'.tasks = s.tasks) :
    Turn s (s'.notify.setTask t') t t' := by
  have he (id : ResolutionId) : s'.task? id = s.task? id := by rw [task?, hs, task?]
  refine ⟨by simp [hs], ht, by simp [task?_setTask, task?_notify, he, ht], .inr ?_⟩
  intro id hid
  rw [task?_setTask, if_neg hid, task?_notify, he]

namespace Turn

theorem of_other {u : Task} (hT : Turn s s' t t') (hid : id ≠ t'.id) (hu : s'.task? id = some u) :
    ∃ v, s.task? id = some v ∧ (u = v ∨ u = v.notified) := by
  rcases hT.other with ho | ho
  · exact ⟨u, ho id hid ▸ hu, .inl rfl⟩
  · rw [ho id hid] at hu
    obtain ⟨v, hv, rfl⟩ := Option.map_eq_some_iff.1 hu
    exact ⟨v, hv, .inr rfl⟩

theorem places (hT : Turn s s' t t') (id : ResolutionId) :
    s'.places id = if id = t'.id then Task.places t'.frames else s.places id := by
  split
  · next he => rw [he, places_of_task? hT.self]
  · next hid =>
    rcases hT.other with ho | ho
    · rw [System.places, ho id hid, System.places]
    · rw [System.places, ho id hid, System.places]
      cases s.task? id <;> simp

theorem awaited? (hT : Turn s s' t t') (id : ResolutionId) :
    s'.awaited? id = if id = t'.id then t'.control.awaited? else s.awaited? id := by
  split
  · next he => rw [he, awaited?_of_task? hT.self]
  · next hid =>
    rcases hT.other with ho | ho
    · rw [System.awaited?, ho id hid, System.awaited?]
    · rw [System.awaited?, ho id hid, System.awaited?]
      cases s.task? id <;> simp [Task.awaited?_notified]

end Turn

theorem Act.turn (hact : Act h s t s') (ht : s.task? t.id = some t) :
    ∃ t', t'.id = t.id ∧ Turn s s' t t' := by
  cases hact with
  | idle => exact ⟨t, rfl, rfl, ht, ht, .inl fun _ _ => rfl⟩
  | @enter _ control frames => exact ⟨⟨t.id, control, frames⟩, rfl, turn_setTask ht rfl⟩
  | @hit _ _ control frames => exact ⟨⟨t.id, control, frames⟩, rfl, turn_setTask ht rfl⟩
  | @refuse _ _ control frames => exact ⟨⟨t.id, control, frames⟩, rfl, turn_setTask ht rfl⟩
  | @wait p => exact ⟨{ t with control := .wait p false }, rfl, turn_setTask ht rfl⟩
  | @complete _ _ _ control frames =>
    exact ⟨⟨t.id, control, frames⟩, rfl, turn_notify_setTask ht rfl⟩
  | @release _ _ _ control frames =>
    exact ⟨⟨t.id, control, frames⟩, rfl, turn_notify_setTask ht rfl⟩

/-- Every task stands in some relation to the stylesheet that it began with. -/
structure Tracked (P : Path → Control → List Frame → Prop) (roots : List Path) (s : System σ) :
    Prop where
  length : roots.length = s.tasks.length
  task {id : ResolutionId} {t : Task} : s.task? id = some t →
    ∃ root, roots[id]? = some root ∧ P root t.control t.frames

section Tracked

variable {P P' : Path → Control → List Frame → Prop} {roots : List Path}

theorem tracked_initial (state : σ) : Tracked P [] (initial state) where
  length := rfl
  task := nofun

theorem Tracked.start (hs : Tracked P roots s) {p : Path} (hp : P p (.claim p) []) :
    Tracked P (roots ++ [p]) (s.start s.freshId p) where
  length := by simp [System.start, hs.length]
  task {id t} ht := by
    rw [task?_start] at ht
    split at ht
    · next he =>
      cases ht
      exact ⟨p, by simp [he, freshId, ← hs.length], hp⟩
    · obtain ⟨root, hr, hP⟩ := hs.task ht
      exact ⟨root, by rw [List.getElem?_append_left (List.getElem?_eq_some_iff.1 hr).1, hr], hP⟩

theorem Tracked.turn (hs : Tracked P roots s) (hT : Turn s s' t t')
    (hself : ∀ root, P root t.control t.frames → P' root t'.control t'.frames)
    (hother : ∀ root (u : Task), P root u.control u.frames →
      P' root u.control u.frames ∧ P' root u.notified.control u.notified.frames) :
    Tracked P' roots s' where
  length := by rw [hs.length, hT.length]
  task {id u} hu := by
    by_cases hid : id = t'.id
    · subst hid
      cases hT.self.symm.trans hu
      obtain ⟨root, hr, hP⟩ := hs.task hT.before
      exact ⟨root, hr, hself root hP⟩
    · obtain ⟨v, hv, rfl | rfl⟩ := hT.of_other hid hu
      · obtain ⟨root, hr, hP⟩ := hs.task hv
        exact ⟨root, hr, (hother root _ hP).1⟩
      · obtain ⟨root, hr, hP⟩ := hs.task hv
        exact ⟨root, hr, (hother root _ hP).2⟩

end Tracked

/-- What holds between the cache and the tasks. -/
structure Consistent (s : System σ) : Prop where
  fresh {id : ResolutionId} {t : Task} : s.task? id = some t → id < s.tasks.length
  owned (l : Location) (id : ResolutionId) : s.cache.owner? l = some id ↔ l ∈ s.places id
  nodup (id : ResolutionId) : (s.places id).Nodup
  settled {id : ResolutionId} {t : Task} : s.task? id = some t → Task.Settled t.control t.frames
  waits (id : ResolutionId) : s.cache.awaited? id = s.awaited? id
  blocked {id : ResolutionId} {t : Task} {p : Path} : s.task? id = some t →
    t.control = .wait p false → ∃ owner, owner ≠ id ∧ s.cache.owner? p.location = some owner
  acyclic (id : ResolutionId) : ¬ TransGen s.cache.WaitsFor id id

theorem consistent_initial (state : σ) : (initial state).Consistent where
  fresh := nofun
  owned l id := by
    constructor <;> nofun
  nodup id := List.nodup_nil
  settled := nofun
  waits id := rfl
  blocked := nofun
  acyclic id hc := by
    obtain ⟨_, ⟨_, hl, _⟩, _⟩ := TransGen.head'_iff.1 hc
    cases hl

namespace Consistent

theorem start (hs : s.Consistent) (p : Path) : (s.start s.freshId p).Consistent := by
  have hn : s.task? s.freshId = none := by
    cases ht : s.task? s.freshId with
    | none => rfl
    | some t => exact absurd (hs.fresh ht) (Nat.lt_irrefl _)
  have hp (id : ResolutionId) : (s.start s.freshId p).places id = s.places id := by
    rw [places, task?_start, places]
    split
    · next he => rw [he, hn]; rfl
    · rfl
  have hw (id : ResolutionId) : (s.start s.freshId p).awaited? id = s.awaited? id := by
    rw [awaited?, task?_start, awaited?]
    split
    · next he => rw [he, hn]; rfl
    · rfl
  refine ⟨?_, fun l id => hp id ▸ hs.owned l id, fun id => hp id ▸ hs.nodup id, ?_,
    fun id => hw id ▸ hs.waits id, ?_, hs.acyclic⟩
  · intro id t ht
    rw [task?_start] at ht
    split at ht
    · next he =>
      subst he
      exact Nat.lt_succ_self _
    · exact Nat.lt_succ_of_lt (hs.fresh ht)
  · intro id t ht
    rw [task?_start] at ht
    split at ht
    · cases ht
      trivial
    · exact hs.settled ht
  · intro id t q ht hc
    rw [task?_start] at ht
    split at ht
    · cases ht
      cases hc
    · exact hs.blocked ht hc

theorem clear (hs : s.Consistent) : s.clear.Consistent where
  fresh := hs.fresh
  owned l id := by
    rw [System.clear, Cache.owner?_clear]
    exact hs.owned l id
  nodup := hs.nodup
  settled := hs.settled
  waits := hs.waits
  blocked ht hc := by
    rw [System.clear, Cache.owner?_clear]
    exact hs.blocked ht hc
  acyclic := by
    refine acyclic_mono hs.acyclic ?_
    rintro x y ⟨l, hl, ho⟩
    rw [System.clear, Cache.owner?_clear] at ho
    exact ⟨l, hl, ho⟩

theorem turn (hs : s.Consistent) (hT : Turn s s' t t') (hset : Task.Settled t'.control t'.frames)
    (howned : ∀ l id, s'.cache.owner? l = some id ↔ l ∈ s'.places id)
    (hnodup : (Task.places t'.frames).Nodup)
    (hwaits : ∀ id, s'.cache.awaited? id =
      if id = t'.id then t'.control.awaited? else s.cache.awaited? id)
    (hself : ∀ p, t'.control = .wait p false →
      ∃ owner, owner ≠ t'.id ∧ s'.cache.owner? p.location = some owner)
    (hkeep : (∀ l owner, s.cache.owner? l = some owner → s'.cache.owner? l = some owner) ∨
      ∀ id, id ≠ t'.id → s'.task? id = (s.task? id).map Task.notified)
    (hacyclic : ∀ id, ¬ TransGen s'.cache.WaitsFor id id) : s'.Consistent where
  fresh {id u} hu := by
    rw [hT.length]
    by_cases hid : id = t'.id
    · exact hs.fresh (hid ▸ hT.before)
    · obtain ⟨v, hv, _⟩ := hT.of_other hid hu
      exact hs.fresh hv
  owned := howned
  nodup id := by
    rw [hT.places]
    split
    · exact hnodup
    · exact hs.nodup id
  settled {id u} hu := by
    by_cases hid : id = t'.id
    · subst hid
      cases hT.self.symm.trans hu
      exact hset
    · obtain ⟨v, hv, rfl | rfl⟩ := hT.of_other hid hu
      · exact hs.settled hv
      · exact Task.settled_notified (hs.settled hv)
  waits id := by
    rw [hwaits, hT.awaited?, hs.waits]
  blocked {id u p} hu hp := by
    by_cases hid : id = t'.id
    · subst hid
      cases hT.self.symm.trans hu
      exact hself p hp
    · rcases hkeep with hkeep | hkeep
      · obtain ⟨v, hv, rfl | rfl⟩ := hT.of_other hid hu
        · obtain ⟨owner, hne, ho⟩ := hs.blocked hv hp
          exact ⟨owner, hne, hkeep _ _ ho⟩
        · exact absurd hp (v.notified_ne_wait p)
      · rw [hkeep id hid] at hu
        obtain ⟨v, _, rfl⟩ := Option.map_eq_some_iff.1 hu
        exact absurd hp (v.notified_ne_wait p)
  acyclic := hacyclic

theorem awaited?_of_task? (hs : s.Consistent) (ht : s.task? t.id = some t) :
    s.cache.awaited? t.id = t.control.awaited? :=
  (hs.waits t.id).trans (System.awaited?_of_task? ht)

theorem owner?_eq_iff (hs : s.Consistent) (ht : s.task? t.id = some t) {l : Location} :
    s.cache.owner? l = some t.id ↔ l ∈ Task.places t.frames := by
  rw [hs.owned, places_of_task? ht]

theorem owner?_head (hs : s.Consistent) (ht : s.task? t.id = some t) {f : Frame}
    {outer : List Frame} (hf : t.frames = f :: outer) :
    s.cache.owner? f.path.location = some t.id := by
  rw [hs.owner?_eq_iff ht, hf]
  exact List.mem_cons_self ..

theorem waitsFor_rouse (hs : s.Consistent) (ht : s.task? t.id = some t) {x y : ResolutionId} :
    (t.rouse s.cache).WaitsFor x y ↔ x ≠ t.id ∧ s.cache.WaitsFor x y := by
  simp only [Cache.WaitsFor, Task.owner?_rouse, Task.awaited?_rouse (hs.awaited?_of_task? ht)]
  by_cases hx : x = t.id <;> simp [hx]

theorem acyclic_rouse (hs : s.Consistent) (ht : s.task? t.id = some t) (id : ResolutionId) :
    ¬ TransGen (t.rouse s.cache).WaitsFor id id :=
  acyclic_mono hs.acyclic (fun _ _ hw => ((hs.waitsFor_rouse ht).1 hw).2) id

theorem move (hs : s.Consistent) (ht : s.task? t.id = some t) {control : Control}
    {frames : List Frame} (hr : Task.Reaches (control, frames) (Task.places t.frames)) :
    ({ s with cache := t.rouse s.cache }.setTask ⟨t.id, control, frames⟩).Consistent := by
  have hT : Turn s ({ s with cache := t.rouse s.cache }.setTask ⟨t.id, control, frames⟩) t
      ⟨t.id, control, frames⟩ := turn_setTask ht rfl
  have hp : Task.places frames = Task.places t.frames := hr.places
  refine hs.turn hT hr.settled ?_ ?_ ?_ ?_ (.inl ?_) (hs.acyclic_rouse ht)
  · intro l id
    rw [hT.places, cache_setTask, Task.owner?_rouse, hs.owned]
    split
    · next he => rw [he, hp, places_of_task? ht]
    · rfl
  · rw [hp, ← places_of_task? ht]
    exact hs.nodup t.id
  · intro id
    rw [cache_setTask, Task.awaited?_rouse (hs.awaited?_of_task? ht)]
    split
    · exact hr.awaited.symm
    · rfl
  · exact fun p hw => absurd hw (hr.not_wait p)
  · intro l owner ho
    rwa [cache_setTask, Task.owner?_rouse]

theorem enter (hs : s.Consistent) (ht : s.task? t.id = some t) {p : Path} {control : Control}
    {frames : List Frame} {state : σ} (hn : s.cache.slot? p.location = none)
    (hr : Task.Reaches (control, frames) (p.location :: Task.places t.frames)) :
    ({ s with
      cache := (t.rouse s.cache).put p.location (.inProgress t.id)
      state := state }.setTask ⟨t.id, control, frames⟩).Consistent := by
  have hT : Turn s ({ s with
      cache := (t.rouse s.cache).put p.location (.inProgress t.id)
      state := state }.setTask ⟨t.id, control, frames⟩) t ⟨t.id, control, frames⟩ :=
    turn_setTask ht rfl
  have hp : Task.places frames = p.location :: Task.places t.frames := hr.places
  have hfree := Cache.owner?_of_slot?_eq_none hn
  have hkeep (l : Location) (owner : ResolutionId) (ho : s.cache.owner? l = some owner) :
      l ≠ p.location := by
    rintro rfl
    cases hfree.symm.trans ho
  refine hs.turn hT hr.settled ?_ ?_ ?_ ?_ (.inl ?_) ?_
  · intro l id
    rw [hT.places, cache_setTask, Cache.owner?_put_inProgress, Task.owner?_rouse]
    by_cases hid : id = t.id
    · subst hid
      rw [if_pos rfl, hp, List.mem_cons, ← hs.owner?_eq_iff ht]
      by_cases hl : l = p.location <;> simp [hl]
    · rw [if_neg hid, ← hs.owned]
      by_cases hl : l = p.location
      · subst hl
        simp [hfree, Ne.symm hid]
      · rw [if_neg hl]
  · rw [hp, List.nodup_cons, ← hs.owner?_eq_iff ht, hfree, ← places_of_task? ht]
    exact ⟨nofun, hs.nodup t.id⟩
  · intro id
    rw [cache_setTask, Cache.awaited?_put, Task.awaited?_rouse (hs.awaited?_of_task? ht)]
    split
    · exact hr.awaited.symm
    · rfl
  · exact fun q hw => absurd hw (hr.not_wait q)
  · intro l owner ho
    rw [cache_setTask, Cache.owner?_put_inProgress, if_neg (hkeep l owner ho), Task.owner?_rouse, ho]
  · -- whoever waited for the stylesheet before now waits for this task, which waits for nobody
    refine acyclic_of_sink (a := t.id) (hs.acyclic_rouse ht) ?_ ?_
    · rintro x y ⟨l, hl, ho⟩
      rw [cache_setTask, Cache.owner?_put_inProgress] at ho
      split at ho
      · exact .inr (Option.some.inj ho).symm
      · exact .inl ⟨l, hl, ho⟩
    · rintro y ⟨l, hl, _⟩
      rw [cache_setTask, Cache.awaited?_put, Task.awaited?_rouse (hs.awaited?_of_task? ht),
        if_pos rfl] at hl
      cases hl

theorem wait (hs : s.Consistent) (ht : s.task? t.id = some t) {p : Path} {owner : ResolutionId}
    (ho : s.cache.owner? p.location = some owner) (hne : owner ≠ t.id)
    (hl : (t.rouse s.cache).leadsBackTo owner t.id = false)
    (hset : Task.Settled (.wait p false) t.frames) :
    ({ s with cache := (t.rouse s.cache).await t.id p.location }.setTask
      { t with control := .wait p false }).Consistent := by
  have hT : Turn s ({ s with cache := (t.rouse s.cache).await t.id p.location }.setTask
      { t with control := .wait p false }) t { t with control := .wait p false } :=
    turn_setTask ht rfl
  refine hs.turn hT hset ?_ ?_ ?_ ?_ (.inl ?_) ?_
  · intro l id
    rw [hT.places, cache_setTask, Cache.owner?_await, Task.owner?_rouse, hs.owned]
    split
    · next he => rw [he, places_of_task? ht]
    · rfl
  · rw [← places_of_task? ht]
    exact hs.nodup t.id
  · intro id
    rw [cache_setTask, Cache.awaited?_await, Task.awaited?_rouse (hs.awaited?_of_task? ht)]
    split <;> rfl
  · intro q hq
    cases hq
    exact ⟨owner, hne, by rwa [cache_setTask, Cache.owner?_await, Task.owner?_rouse]⟩
  · intro l owner ho
    rwa [cache_setTask, Cache.owner?_await, Task.owner?_rouse]
  · have hback : ¬ ReflTransGen (t.rouse s.cache).WaitsFor owner t.id := by
      rw [reflTransGen_iff_eq_or_transGen, ← Cache.leadsBackTo_iff (hs.acyclic_rouse ht), hl]
      simpa using Ne.symm hne
    refine acyclic_of_edge (hs.acyclic_rouse ht) ?_ hback
    rintro x y ⟨l, hx, hy⟩
    rw [cache_setTask, Cache.awaited?_await] at hx
    rw [cache_setTask, Cache.owner?_await] at hy
    split at hx
    · next he =>
      cases hx
      rw [Task.owner?_rouse, ho] at hy
      exact .inr ⟨he, (Option.some.inj hy).symm⟩
    · exact .inl ⟨l, hx, hy⟩

theorem leave (hs : s.Consistent) (ht : s.task? t.id = some t) {f : Frame} {outer : List Frame}
    (hf : t.frames = f :: outer) (hw : t.control.awaited? = none) {control : Control}
    {frames : List Frame} (hr : Task.Reaches (control, frames) (Task.places outer))
    (hts : s'.tasks = s.tasks)
    (ho : ∀ l, s'.cache.owner? l = if l = f.path.location then none else s.cache.owner? l)
    (ha : ∀ id, s'.cache.awaited? id = s.cache.awaited? id) :
    (s'.notify.setTask ⟨t.id, control, frames⟩).Consistent := by
  have hT : Turn s (s'.notify.setTask ⟨t.id, control, frames⟩) t ⟨t.id, control, frames⟩ :=
    turn_notify_setTask ht hts
  have hp : Task.places frames = Task.places outer := hr.places
  have hme := hs.owner?_head ht hf
  have hnodup := hs.nodup t.id
  rw [places_of_task? ht, hf, Task.places_cons, List.nodup_cons] at hnodup
  refine hs.turn hT hr.settled ?_ ?_ ?_ ?_ (.inr ?_) ?_
  · intro l id
    rw [hT.places, cache_setTask, cache_notify, ho]
    by_cases hid : id = t.id
    · subst hid
      rw [if_pos rfl, hp]
      by_cases hl : l = f.path.location
      · simp [hl, hnodup.1]
      · rw [if_neg hl, hs.owner?_eq_iff ht, hf, Task.places_cons, List.mem_cons]
        simp [hl]
    · rw [if_neg hid]
      by_cases hl : l = f.path.location
      · subst hl
        rw [if_pos rfl, ← hs.owned, hme]
        simp [Ne.symm hid]
      · rw [if_neg hl, hs.owned]
  · exact hp ▸ hnodup.2
  · intro id
    rw [cache_setTask, cache_notify, ha]
    split
    · next he =>
      rw [he, hs.awaited?_of_task? ht, hw]
      exact hr.awaited.symm
    · rfl
  · exact fun q hq => absurd hq (hr.not_wait q)
  · intro id hid
    rw [task?_setTask, if_neg hid, task?_notify, task?, hts, task?]
  · refine acyclic_mono hs.acyclic ?_
    rintro x y ⟨l, hx, hy⟩
    rw [cache_setTask, cache_notify, ha] at hx
    rw [cache_setTask, cache_notify, ho] at hy
    split at hy
    · cases hy
    · exact ⟨l, hx, hy⟩

theorem act (hs : s.Consistent) (ht : s.task? t.id = some t) (hact : Act h s t s') :
    s'.Consistent := by
  cases hact with
  | idle => exact hs
  | @enter p _ _ _ _ hn he =>
    have hr := Task.reaches_enter h p t.frames s.state
    rw [he] at hr
    exact hs.enter ht hn hr
  | hit _ _ he => exact hs.move ht (he ▸ Task.reaches_receive _ _)
  | refuse _ _ _ he => exact hs.move ht (he ▸ Task.reaches_fail _ _)
  | wait _ ho hne hl => exact hs.wait ht (Cache.owner?_eq_some_iff.2 ho) hne hl trivial
  | complete hc hf he =>
    exact hs.leave ht hf (by rw [hc]; rfl) (he ▸ Task.reaches_receive _ _) rfl
      (fun _ => Cache.owner?_put_ready) fun _ => rfl
  | release hc hf he =>
    exact hs.leave ht hf (by rw [hc]; rfl) (he ▸ Task.reaches_fail _ _) rfl
      (fun _ => Cache.owner?_release) fun _ => rfl

theorem perform (hs : s.Consistent) (move : Move) : (s.perform h move).Consistent := by
  obtain ⟨p, _, he⟩ | ⟨id, t, _, ht, hact⟩ | ⟨id, _, _, he⟩ | ⟨_, he⟩ := perform_cases h s move
  · exact he ▸ hs.start p
  · obtain rfl := id_of_task? ht
    exact hs.act ht hact
  · rwa [he]
  · exact he ▸ hs.clear

theorem run (hs : s.Consistent) (moves : List Move) : (s.run h moves).Consistent := by
  induction moves generalizing s with
  | nil => exact hs
  | cons move moves ih => exact ih (hs.perform move)

theorem slot?_iff (hs : s.Consistent) {l : Location} : s.cache.slot? l = some (.inProgress id) ↔
    ∃ t, s.task? id = some t ∧ l ∈ Task.places t.frames := by
  rw [← Cache.owner?_eq_some_iff, hs.owned]
  constructor
  · intro hl
    cases ht : s.task? id with
    | none => simp [places, ht] at hl
    | some t => exact ⟨t, rfl, places_of_task? ht ▸ hl⟩
  · rintro ⟨t, ht, hl⟩
    exact places_of_task? ht ▸ hl

/-- No stylesheet is in progress in two tasks. -/
theorem eq_of_mem_places (hs : s.Consistent) {id' : ResolutionId} {l : Location}
    (hl : l ∈ s.places id) (hl' : l ∈ s.places id') : id = id' :=
  Option.some.inj (((hs.owned l id).2 hl).symm.trans ((hs.owned l id').2 hl'))

theorem task?_act_ne (hs : s.Consistent) (ht : s.task? t.id = some t) (ha : t.Able)
    (hact : Act h s t s') : s'.task? t.id ≠ some t := by
  have hset := hs.settled ht
  obtain ⟨id, control, frames⟩ := t
  intro hsame
  cases hact with
  | idle hn hc hr =>
    cases control with
    | claim p => exact hn p rfl
    | wait p notified => exact hn p rfl
    | done answer => exact ha.1 answer rfl
    | complete map =>
      obtain ⟨f, outer, rfl⟩ := List.exists_cons_of_ne_nil hset
      exact hc f outer map rfl rfl
    | release e =>
      obtain ⟨f, outer, rfl⟩ := List.exists_cons_of_ne_nil hset
      exact hr f outer e rfl rfl
  | @enter p control' frames' state _ _ he =>
    have hr := (Task.reaches_enter h p frames s.state).places
    have hT : Turn s _ _ ⟨id, control', frames'⟩ := turn_setTask ht rfl
    cases hT.self.symm.trans hsame
    simp only [he] at hr
    exact absurd (congrArg List.length hr) (by simp)
  | @hit _ _ control' frames' hq _ he =>
    have hT : Turn s _ _ ⟨id, control', frames'⟩ := turn_setTask ht rfl
    cases hT.self.symm.trans hsame
    exact Task.receive_ne hq he
  | @refuse _ _ control' frames' hq _ _ he =>
    have hT : Turn s _ _ ⟨id, control', frames'⟩ := turn_setTask ht rfl
    cases hT.self.symm.trans hsame
    exact Task.fail_ne hq he
  | @wait p _ _ _ _ _ =>
    have hT : Turn s _ _ ⟨id, .wait p false, frames⟩ := turn_setTask ht rfl
    cases hT.self.symm.trans hsame
    exact ha.2 p rfl
  | @complete map f outer control' frames' _ hf he =>
    have hr := (Task.reaches_receive ⟨s.finished, map⟩ outer).places
    have hT : Turn s _ _ ⟨id, control', frames'⟩ := turn_notify_setTask ht rfl
    cases hT.self.symm.trans hsame
    simp only [he] at hr
    cases hf
    exact absurd (congrArg List.length hr) (by simp)
  | @release e f outer control' frames' _ hf he =>
    have hr := (Task.reaches_fail outer e).places
    have hT : Turn s _ _ ⟨id, control', frames'⟩ := turn_notify_setTask ht rfl
    cases hT.self.symm.trans hsame
    simp only [he] at hr
    cases hf
    exact absurd (congrArg List.length hr) (by simp)

theorem step_ne (hs : s.Consistent) (ht : s.task? id = some t) (ha : t.Able) :
    s.step h id ≠ s := by
  obtain rfl := id_of_task? ht
  intro he
  have hact := stepTask_act h s t
  simp only [step, ht] at he
  rw [he] at hact
  exact hs.task?_act_ne ht ha hact ht

/-- Some task can go on if not all of them are done. -/
theorem exists_able (hs : s.Consistent) (ht : s.task? id = some t)
    (hd : ∀ answer, t.control ≠ .done answer) : ∃ id t, s.task? id = some t ∧ t.Able := by
  by_contra hn
  refine not_of_acyclic_of_lt
    (P := fun id => ∃ t, s.task? id = some t ∧ ∀ answer, t.control ≠ .done answer)
    (n := s.tasks.length) hs.acyclic ?_ ?_ id ⟨t, ht, hd⟩
  · rintro id ⟨t, ht, _⟩
    exact hs.fresh ht
  · -- a task that is neither done nor able waits for one that is not done either
    rintro id ⟨t, ht, hd⟩
    have hw : ∃ p, t.control = .wait p false := by
      by_contra hw
      exact hn ⟨id, t, ht, hd, fun p hp => hw ⟨p, hp⟩⟩
    obtain ⟨p, hp⟩ := hw
    obtain ⟨owner, _, ho⟩ := hs.blocked ht hp
    have ha : s.cache.awaited? id = some p.location := by
      rw [hs.waits, System.awaited?_of_task? ht, hp]
      rfl
    obtain ⟨u, hu, hl⟩ := hs.slot?_iff.1 (Cache.owner?_eq_some_iff.1 ho)
    refine ⟨owner, ⟨p.location, ha, ho⟩, u, hu, fun answer hdone => ?_⟩
    have hset := hs.settled hu
    rw [hdone] at hset
    have hnil : u.frames = [] := hset
    simp [hnil] at hl

end Consistent

/-- Whatever happens in whatever order, each stylesheet in progress is one that a single task is
inside of, nobody waits for itself through others, following the waits tells who waits for whom, and
some task can go on if not all of them are done. -/
theorem run_never_stuck (h : Host σ) (state : σ) (moves : List Move) :
    let s := (initial state).run h moves
    (∀ l id, s.cache.slot? l = some (.inProgress id) ↔
      ∃ t, s.task? id = some t ∧ l ∈ Task.places t.frames) ∧
    (∀ l id id' t t', s.task? id = some t → s.task? id' = some t' → l ∈ Task.places t.frames →
      l ∈ Task.places t'.frames → id = id') ∧
    (∀ id t p, s.task? id = some t → t.control = .wait p false →
      ∃ owner, owner ≠ id ∧ s.cache.slot? p.location = some (.inProgress owner)) ∧
    (∀ id, ¬ TransGen s.cache.WaitsFor id id) ∧
    (∀ owner me, owner ≠ me →
      (s.cache.leadsBackTo owner me = true ↔ TransGen s.cache.WaitsFor owner me)) ∧
    ((∃ id t, s.task? id = some t ∧ ∀ answer, t.control ≠ .done answer) →
      ∃ id t, s.task? id = some t ∧ t.Able ∧ s.step h id ≠ s) := by
  intro s
  have hs : s.Consistent := (consistent_initial state).run moves
  refine ⟨fun l id => hs.slot?_iff, ?_, ?_, hs.acyclic, ?_, ?_⟩
  · intro l id id' t t' ht ht' hl hl'
    exact hs.eq_of_mem_places (places_of_task? ht ▸ hl) (places_of_task? ht' ▸ hl')
  · intro id t p ht hp
    obtain ⟨owner, hne, ho⟩ := hs.blocked ht hp
    exact ⟨owner, hne, Cache.owner?_eq_some_iff.1 ho⟩
  · exact fun owner me _ => Cache.leadsBackTo_iff hs.acyclic
  · rintro ⟨id, t, ht, hd⟩
    obtain ⟨id, t, ht, ha⟩ := hs.exists_able ht hd
    exact ⟨id, t, ht, ha, hs.step_ne ht ha⟩

end System

end CssModules
