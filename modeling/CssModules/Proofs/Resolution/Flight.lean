import CssModules.Proofs.Resolution.Ownership
import CssModules.Resolution.Session

namespace CssModules

def Event.asked? : Event → Option Path
  | .asked p => some p
  | _ => none

def Event.released? : Event → Option Path
  | .released p => some p
  | _ => none

namespace Session

variable {read : Path → Except Error Stylesheet} {n : Naming} {name? : Path → Option String}
  {kind : Event → Option Path}

/-- How many events of a kind there have been at a place. -/
def tally (kind : Event → Option Path) (s : Session) (l : Location) : ℕ :=
  ((s.events.filterMap kind).map Path.location).count l

theorem tally_record_of_none (s : Session) {e : Event} (h : kind e = none) :
    (s.record e).tally kind = s.tally kind := by
  funext l
  rw [tally, record, List.filterMap_cons_none h, tally]

theorem tally_record_of_some (s : Session) {e : Event} {p : Path} (h : kind e = some p)
    (l : Location) :
    (s.record e).tally kind l = s.tally kind l + if p.location = l then 1 else 0 := by
  rw [tally, record, List.filterMap_cons_some h, List.map_cons, List.count_cons, tally]
  simp

theorem filterMap_generate (hk : ∀ package, kind (.named package) = none) (className : String)
    (p : Path) (s : Session) :
    (generate n name? className p s).2.events.filterMap kind = s.events.filterMap kind := by
  unfold generate
  split
  · unfold findPackage
    dsimp only
    split
    · exact List.filterMap_cons_none (hk _)
    · rfl
  · rfl

theorem filterMap_declare (hk : ∀ package, kind (.named package) = none) (p : Path)
    (names : List String) (tokens : TokenMap) (s : Session) :
    (Task.declare (host read n name?) p names tokens s).2.events.filterMap kind =
      s.events.filterMap kind := by
  induction names generalizing tokens s with
  | nil => rfl
  | cons name names ih =>
    rw [Task.declare]
    dsimp only
    split
    · exact ih tokens s
    · rw [ih]
      exact filterMap_generate hk name p s

theorem filterMap_parse (hk : ∀ p classes compositions, kind (.parsed p classes compositions) = none)
    (p : Path) (s : Session) :
    (parse read p s).2.events.filterMap kind = (s.record (.asked p)).events.filterMap kind := by
  unfold parse
  dsimp only
  split
  · exact List.filterMap_cons_none (hk _ _ _)
  · rfl

theorem filterMap_enter (hn : ∀ package, kind (.named package) = none)
    (hp : ∀ p classes compositions, kind (.parsed p classes compositions) = none) (p : Path)
    (outer : List Frame) (s : Session) :
    (Task.enter (host read n name?) p outer s).2.events.filterMap kind =
      (s.record (.asked p)).events.filterMap kind := by
  have hparse : (parse read p s).2.events.filterMap kind = _ := filterMap_parse hp p s
  rw [← hparse]
  unfold Task.enter
  split
  · next he => exact congrArg (fun x => x.2.events.filterMap kind) he.symm
  · next he =>
    dsimp only
    rw [filterMap_declare hn]
    exact congrArg (fun x => x.2.events.filterMap kind) he.symm

variable (read n name?)

theorem asked_enter (p : Path) (outer : List Frame) (s : Session) :
    (Task.enter (host read n name?) p outer s).2.events.filterMap Event.asked? =
      p :: s.events.filterMap Event.asked? :=
  filterMap_enter (fun _ => rfl) (fun _ _ _ => rfl) p outer s

theorem tally_asked_enter (p : Path) (outer : List Frame) (s : Session) :
    (Task.enter (host read n name?) p outer s).2.tally Event.asked? =
      (s.record (.asked p)).tally Event.asked? := by
  funext l
  rw [tally, asked_enter]
  rfl

theorem tally_released_enter (p : Path) (outer : List Frame) (s : Session) :
    (Task.enter (host read n name?) p outer s).2.tally Event.released? =
      s.tally Event.released? := by
  funext l
  rw [tally, filterMap_enter (fun _ => rfl) (fun _ _ _ => rfl) p outer s]
  rfl

end Session

namespace Cache

variable {c c' : Cache} {l l' : Location} {finished : FinishedMap} {id : ResolutionId}

theorem get?_eq_some_iff : c.get? l = some finished ↔ c.slot? l = some (.ready finished) := by
  unfold get?
  split
  · next hs => simp [hs]
  · next hs => exact ⟨nofun, fun h => absurd h (hs finished)⟩

theorem get?_congr (h : c.slot? l = c'.slot? l) : c.get? l = c'.get? l := by
  rw [get?, get?, h]

theorem get?_put_ready : (c.put l (.ready finished)).get? l' =
    if l' = l then some finished else c.get? l' := by
  rw [get?, slot?_put]
  by_cases h : l' = l
  · simp [h]
  · simp [h, get?]

theorem get?_put_inProgress : (c.put l (.inProgress id)).get? l' =
    if l' = l then none else c.get? l' := by
  rw [get?, slot?_put]
  by_cases h : l' = l
  · simp [h]
  · simp [h, get?]

theorem get?_release : (c.release l).get? l' = if l' = l then none else c.get? l' := by
  rw [get?, slot?_release]
  by_cases h : l' = l
  · simp [h]
  · simp [h, get?]

theorem get?_of_ite {o : Option FinishedMap} (hc : ∀ l, c'.get? l = if l = l' then o else c.get? l)
    (hn : c.get? l' = none) (hl : c.get? l = some finished) : c'.get? l = some finished := by
  rw [hc]
  split
  · next he =>
    subst he
    cases hn.symm.trans hl
  · exact hl

theorem get?_of_owner?_eq_some (h : c.owner? l = some id) : c.get? l = none := by
  rw [get?, owner?_eq_some_iff.1 h]

end Cache

namespace Task

def finishes? (t : Task) (number : ℕ) : Option (Location × FinishedMap) :=
  match t.control, t.frames with
  | .complete map, f :: _ => some (f.path.location, ⟨number, map⟩)
  | _, _ => none

def finds? (t : Task) (c : Cache) : Option (Location × FinishedMap) :=
  t.control.request?.bind fun p => (c.get? p.location).map (p.location, ·)

/-- What a task that began with a stylesheet can have come to, when some maps have been given at
some places: it is inside of that stylesheet, or asks for it, or has failed, or has been given its
map. -/
structure Within (given : List (Location × FinishedMap)) (root : Path) (control : Control)
    (frames : List Frame) : Prop where
  outermost {l : Location} : (places frames).getLast? = some l → l = root.location
  request {p : Path} : frames = [] → control.request? = some p → p.location = root.location
  answer {finished : FinishedMap} : control = .done (.ok finished) →
    (root.location, finished) ∈ given

variable {given : List (Location × FinishedMap)} {root : Path} {control : Control}
  {frames outer : List Frame}

theorem finishes?_of_request? {t : Task} {p : Path} (h : t.control.request? = some p)
    (number : ℕ) : t.finishes? number = none := by
  unfold finishes?
  split
  · next hc _ =>
    rw [hc] at h
    cases h
  · rfl

theorem finds?_of_request? {t : Task} {p : Path} (h : t.control.request? = some p) (c : Cache) :
    t.finds? c = (c.get? p.location).map (p.location, ·) := by rw [finds?, h]; rfl

theorem finds?_eq_none {t : Task} {p : Path} {c : Cache} (h : t.control.request? = some p)
    (hc : ∀ finished, c.slot? p.location ≠ some (.ready finished)) : t.finds? c = none := by
  rw [finds?_of_request? h, Option.map_eq_none_iff, Option.eq_none_iff_forall_ne_some]
  exact fun finished hf => hc finished (Cache.get?_eq_some_iff.1 hf)

theorem within_claim (given : List (Location × FinishedMap)) (root : Path) :
    Within given root (.claim root) [] where
  outermost := nofun
  request _ hc := by
    cases hc
    rfl
  answer := nofun

theorem Within.mono {given' : List (Location × FinishedMap)} (hw : Within given root control frames)
    (hg : given ⊆ given') : Within given' root control frames where
  outermost := hw.outermost
  request := hw.request
  answer hc := hg (hw.answer hc)

theorem Within.inner {f : Frame} (hw : Within given root control (f :: outer)) (l : Location)
    (hl : (places outer).getLast? = some l) : l = root.location :=
  hw.outermost (by rw [places_cons, List.getLast?_cons, hl]; rfl)

theorem Within.head {f : Frame} (hw : Within given root control (f :: outer)) (ho : outer = []) :
    f.path.location = root.location := by
  subst ho
  exact hw.outermost rfl

theorem Within.wait {p : Path} (hw : Within given root control frames)
    (hc : control.request? = some p) (notified : Bool) :
    Within given root (.wait p notified) frames where
  outermost := hw.outermost
  request hf hp := hw.request hf (hc.trans hp)
  answer := nofun

theorem Within.notified {t : Task} (hw : Within given root t.control t.frames) :
    Within given root t.notified.control t.notified.frames := by
  unfold Task.notified
  split
  · next hc => exact hw.wait (by rw [hc]; rfl) true
  · exact hw

theorem within_of_reaches {ls : List Location} {l : Location}
    (hr : Reaches (control, frames) ls) (hl : ls.getLast? = some l) (he : l = root.location) :
    Within given root control frames where
  outermost {l'} hl' := by
    rw [hr.places, hl] at hl'
    exact Option.some.inj hl' ▸ he
  request hf := by
    have hp := hr.places
    subst hf
    cases (hp : ([] : List Location) = ls)
    cases hl
  answer hc := by
    have hs := hr.settled
    have hp := hr.places
    subst hc
    cases (hs : frames = [])
    cases (hp : ([] : List Location) = ls)
    cases hl

theorem exists_getLast?_places (hne : frames ≠ []) :
    ∃ l, (places frames).getLast? = some l := by
  cases hl : (places frames).getLast? with
  | none => simp [places] at hl; exact absurd hl hne
  | some l => exact ⟨l, rfl⟩

theorem within_receive {finished : FinishedMap}
    (ho : ∀ l, (places frames).getLast? = some l → l = root.location)
    (hg : frames = [] → (root.location, finished) ∈ given)
    (hr : receive finished frames = (control, outer)) : Within given root control outer := by
  by_cases hf : frames = []
  · subst hf
    cases hr
    refine ⟨nofun, nofun, fun hc => ?_⟩
    cases hc
    exact hg rfl
  · obtain ⟨l, hl⟩ := exists_getLast?_places hf
    exact within_of_reaches (hr ▸ reaches_receive finished frames) hl (ho l hl)

theorem within_fail {e : Error}
    (ho : ∀ l, (places frames).getLast? = some l → l = root.location)
    (hr : fail frames e = (control, outer)) : Within given root control outer := by
  by_cases hf : frames = []
  · subst hf
    cases hr
    exact ⟨nofun, nofun, nofun⟩
  · obtain ⟨l, hl⟩ := exists_getLast?_places hf
    exact within_of_reaches (hr ▸ reaches_fail frames e) hl (ho l hl)

end Task

namespace System

variable {σ : Type} {h : Host σ} {s s' : System σ} {t t' : Task}

/-- What is seen of the moves of a run, in order. -/
def observe {α : Type} (h : Host σ) (see : System σ → Move → Option α) :
    System σ → List Move → List α
  | _, [] => []
  | s, move :: moves => (see s move).toList ++ observe h see (s.perform h move) moves

def finishes? (s : System σ) : Move → Option (Location × FinishedMap)
  | .step id => (s.task? id).bind (·.finishes? s.finished)
  | _ => none

/-- The map that a move gives to whoever has asked for its stylesheet, because it finishes it or
finds it finished. -/
def gives? (s : System σ) : Move → Option (Location × FinishedMap)
  | .step id => (s.task? id).bind fun t => (t.finishes? s.finished).or (t.finds? s.cache)
  | _ => none

/-- What has been given and finished in a run that forgets nothing, beside what is in the cache and
what has happened: the maps that have been given are still there, each stylesheet in there has been
finished once, and the times that one was asked for add up. -/
structure Flight (given built : List (Location × FinishedMap)) (roots : List Path)
    (s : System Session) : Prop extends Tracked (Task.Within given) roots s where
  kept {x : Location × FinishedMap} : x ∈ given → s.cache.get? x.1 = some x.2
  once (l : Location) : (built.map Prod.fst).count l = (s.cache.get? l).isSome.toNat
  asked (l : Location) : s.state.tally Event.asked? l = (built.map Prod.fst).count l +
    s.state.tally Event.released? l + (s.cache.owner? l).isSome.toNat

namespace Flight

variable {read : Path → Except Error Stylesheet} {n : Naming} {name? : Path → Option String}
  {given built new : List (Location × FinishedMap)} {roots : List Path} {s s' : System Session}
  {p : Path} {finished : FinishedMap} {control : Control} {frames outer : List Frame} {f : Frame}

theorem start (hf : Flight given built roots s) (p : Path) :
    Flight given built (roots ++ [p]) (s.start s.freshId p) where
  toTracked := hf.toTracked.start (Task.within_claim given p)
  kept := hf.kept
  once := hf.once
  asked := hf.asked

theorem turn (hf : Flight given built roots s) {finished : List (Location × FinishedMap)}
    (hT : Turn s s' t t')
    (hself : ∀ root, Task.Within given root t.control t.frames →
      Task.Within (given ++ new) root t'.control t'.frames)
    (hkeep : ∀ l finished, s.cache.get? l = some finished → s'.cache.get? l = some finished)
    (hnew : ∀ x ∈ new, s'.cache.get? x.1 = some x.2)
    (honce : ∀ l, (finished.map Prod.fst).count l + (s.cache.get? l).isSome.toNat =
      (s'.cache.get? l).isSome.toNat)
    (hasked : ∀ l, s'.state.tally Event.asked? l + s.state.tally Event.released? l +
        (s.cache.owner? l).isSome.toNat =
      s.state.tally Event.asked? l + (finished.map Prod.fst).count l +
        s'.state.tally Event.released? l + (s'.cache.owner? l).isSome.toNat) :
    Flight (given ++ new) (built ++ finished) roots s' where
  toTracked := hf.toTracked.turn hT hself fun root u hw =>
    ⟨hw.mono (List.subset_append_left ..), (hw.mono (List.subset_append_left ..)).notified⟩
  kept {x} hx := (List.mem_append.1 hx).elim (fun hx => hkeep _ _ (hf.kept hx)) (hnew x)
  once l := by
    rw [List.map_append, List.count_append, hf.once, Nat.add_comm]
    exact honce l
  asked l := by
    have ho := hf.asked l
    have hn := hasked l
    rw [List.map_append, List.count_append]
    omega

theorem move (hf : Flight given built roots s) (t' : Task) (ht : s.task? t'.id = some t) {c : Cache}
    (hc : ∀ l, c.slot? l = s.cache.slot? l)
    (hself : ∀ root, Task.Within given root t.control t.frames →
      Task.Within (given ++ new) root t'.control t'.frames)
    (hnew : ∀ x ∈ new, s.cache.get? x.1 = some x.2) :
    Flight (given ++ new) built roots ({ s with cache := c }.setTask t') := by
  have hget (l : Location) : c.get? l = s.cache.get? l := Cache.get?_congr (hc l)
  have hown (l : Location) : c.owner? l = s.cache.owner? l := Cache.owner?_congr (hc l)
  rw [← List.append_nil built]
  refine hf.turn (turn_setTask ht rfl) hself (fun l finished hl => (hget l).trans hl)
    (fun x hx => (hget x.1).trans (hnew x hx)) (fun l => ?_) fun l => ?_
  · simp [hget]
  · simp [hown]

theorem enter (hf : Flight given built roots s) (ht : s.task? t.id = some t)
    (ha : t.control.request? = some p) (hn : s.cache.slot? p.location = none) {state : Session}
    (he : Task.enter (Session.host read n name?) p t.frames s.state = ((control, frames), state)) :
    Flight given built roots ({ s with
      cache := (t.rouse s.cache).put p.location (.inProgress t.id)
      state := state }.setTask ⟨t.id, control, frames⟩) := by
  have hget (l : Location) : (t.rouse s.cache).get? l = s.cache.get? l :=
    Cache.get?_congr (t.slot?_rouse s.cache l)
  have hfree : s.cache.get? p.location = none := by rw [Cache.get?, hn]
  have hasked := Session.tally_asked_enter read n name? p t.frames s.state
  have hreleased := Session.tally_released_enter read n name? p t.frames s.state
  have hreach := Task.reaches_enter (Session.host read n name?) p t.frames s.state
  rw [he] at hasked hreleased hreach
  rw [← List.append_nil given, ← List.append_nil built]
  refine hf.turn (turn_setTask ht rfl) ?_ ?_ nofun ?_ ?_
  · intro root hw
    refine Task.within_of_reaches hreach List.getLast?_cons ?_
    cases hl : (Task.places t.frames).getLast? with
    | none =>
      have hnil : t.frames = [] := by simpa [Task.places] using hl
      exact hw.request hnil ha
    | some l => exact hw.outermost hl
  · intro l finished hl
    refine Cache.get?_of_ite (o := none) (fun l => ?_) hfree hl
    rw [cache_setTask, Cache.get?_put_inProgress, hget]
  · intro l
    rw [cache_setTask, Cache.get?_put_inProgress, hget]
    by_cases hl : l = p.location
    · simp [hl, hfree]
    · simp [hl]
  · intro l
    rw [state_setTask, cache_setTask, hasked, hreleased, Session.tally_record_of_some _ rfl,
      Cache.owner?_put_inProgress, Task.owner?_rouse]
    by_cases hl : l = p.location
    · subst hl
      simp [Cache.owner?_of_slot?_eq_none hn]
      omega
    · simp [hl, Ne.symm hl]

theorem complete (hf : Flight given built roots s) (hs : s.Consistent) (ht : s.task? t.id = some t)
    {map : TokenMap} (hfr : t.frames = f :: outer)
    (he : Task.receive ⟨s.finished, map⟩ outer = (control, frames)) :
    Flight (given ++ [(f.path.location, ⟨s.finished, map⟩)])
      (built ++ [(f.path.location, ⟨s.finished, map⟩)]) roots (({ s with
        cache := s.cache.put f.path.location (.ready ⟨s.finished, map⟩)
        finished := s.finished + 1 }.notify).setTask ⟨t.id, control, frames⟩) := by
  have hown := hs.owner?_head ht hfr
  have hfree := Cache.get?_of_owner?_eq_some hown
  refine hf.turn (turn_notify_setTask ht rfl) ?_ ?_ ?_ ?_ ?_
  · intro root hw
    rw [hfr] at hw
    refine Task.within_receive hw.inner (fun hnil => ?_) he
    rw [← hw.head hnil]
    simp
  · exact fun l finished => Cache.get?_of_ite (fun _ => Cache.get?_put_ready) hfree
  · intro x hx
    obtain rfl := List.mem_singleton.1 hx
    rw [cache_setTask, cache_notify, Cache.get?_put_ready, if_pos rfl]
  · intro l
    rw [cache_setTask, cache_notify, Cache.get?_put_ready]
    by_cases hl : l = f.path.location
    · simp [hl, hfree]
    · simp [hl, Ne.symm hl]
  · intro l
    rw [state_setTask, state_notify, cache_setTask, cache_notify, Cache.owner?_put_ready]
    by_cases hl : l = f.path.location
    · simp [hl, hown]
      omega
    · simp [hl, Ne.symm hl]

theorem release (hf : Flight given built roots s) (hs : s.Consistent) (ht : s.task? t.id = some t)
    {e : Error} (hfr : t.frames = f :: outer) (he : Task.fail outer e = (control, frames)) :
    Flight given built roots (({ s with
      cache := s.cache.release f.path.location
      state := (Session.host read n name?).released f.path s.state }.notify).setTask
        ⟨t.id, control, frames⟩) := by
  have hown := hs.owner?_head ht hfr
  have hfree := Cache.get?_of_owner?_eq_some hown
  rw [← List.append_nil given, ← List.append_nil built]
  refine hf.turn (turn_notify_setTask ht rfl) ?_ ?_ nofun ?_ ?_
  · intro root hw
    rw [hfr] at hw
    exact Task.within_fail hw.inner he
  · exact fun l finished => Cache.get?_of_ite (fun _ => Cache.get?_release) hfree
  · intro l
    rw [cache_setTask, cache_notify, Cache.get?_release]
    by_cases hl : l = f.path.location
    · simp [hl, hfree]
    · simp [hl]
  · intro l
    have ha : ((Session.host read n name?).released f.path s.state).tally Event.asked? =
        s.state.tally Event.asked? := Session.tally_record_of_none _ rfl
    have hr : ((Session.host read n name?).released f.path s.state).tally Event.released? l =
        s.state.tally Event.released? l + if f.path.location = l then 1 else 0 :=
      Session.tally_record_of_some _ rfl l
    rw [state_setTask, state_notify, cache_setTask, cache_notify, ha, hr, Cache.owner?_release]
    by_cases hl : l = f.path.location
    · simp [hl, hown]
      omega
    · simp [hl, Ne.symm hl]

theorem act (hf : Flight given built roots s) (hs : s.Consistent) (ht : s.task? t.id = some t)
    (hact : Act (Session.host read n name?) s t s') :
    Flight (given ++ ((t.finishes? s.finished).or (t.finds? s.cache)).toList)
      (built ++ (t.finishes? s.finished).toList) roots s' := by
  cases hact with
  | idle ha hc hr =>
    have hn : t.finishes? s.finished = none := by
      unfold Task.finishes?
      split
      · next hc' hfr => exact absurd hc' (hc _ _ _ hfr)
      · rfl
    have hg : t.finds? s.cache = none := by
      cases hq : t.control.request? with
      | none => rw [Task.finds?, hq]; rfl
      | some p => exact absurd hq (ha p)
    simpa [hn, hg] using hf
  | enter ha hn he =>
    have hg : t.finds? s.cache = none := Task.finds?_eq_none ha (by simp [hn])
    simpa [Task.finishes?_of_request? ha, hg] using hf.enter ht ha hn he
  | @hit p finished control frames ha hready he =>
    have hget := Cache.get?_eq_some_iff.2 hready
    have hg : t.finds? s.cache = some (p.location, finished) := by
      rw [Task.finds?_of_request? ha, hget]
      rfl
    rw [Task.finishes?_of_request? ha, hg, Option.toList_none, List.append_nil]
    refine hf.move ⟨t.id, control, frames⟩ ht (t.slot?_rouse s.cache) (fun root hw => ?_) ?_
    · refine Task.within_receive (fun l => hw.outermost) (fun hnil => ?_) he
      rw [← hw.request hnil ha]
      simp
    · intro x hx
      obtain rfl := List.mem_singleton.1 hx
      exact hget
  | @refuse p owner control frames ha hslot ho he =>
    have hg : t.finds? s.cache = none := Task.finds?_eq_none ha (by simp [hslot])
    rw [Task.finishes?_of_request? ha, hg, Option.toList_none, List.append_nil]
    exact hf.move ⟨t.id, control, frames⟩ ht (t.slot?_rouse s.cache)
      (fun root hw => Task.within_fail (fun l => hw.outermost) he) nofun
  | @wait p owner ha hslot =>
    have hg : t.finds? s.cache = none := Task.finds?_eq_none ha (by simp [hslot])
    rw [Task.finishes?_of_request? ha, hg, Option.toList_none, List.append_nil]
    refine hf.move { t with control := .wait p false } ht (fun l => ?_) (fun root hw => ?_) nofun
    · rw [Cache.slot?_await, Task.slot?_rouse]
    · exact (hw.mono (List.subset_append_left ..)).wait ha false
  | @complete map f _ _ _ hc hfr he =>
    have hn : t.finishes? s.finished = some (f.path.location, ⟨s.finished, map⟩) := by
      simp only [Task.finishes?, hc, hfr]
    rw [hn]
    exact hf.complete hs ht hfr he
  | release hc hfr he =>
    have hn : t.finishes? s.finished = none := by simp only [Task.finishes?, hc]
    have hg : t.finds? s.cache = none := by
      rw [Task.finds?, hc]
      rfl
    simpa [hn, hg] using hf.release hs ht hfr he

variable (read n name?)

theorem perform (hf : Flight given built roots s) (hs : s.Consistent) {move : Move}
    (hm : move ≠ .clear) :
    Flight (given ++ (s.gives? move).toList) (built ++ (s.finishes? move).toList)
      (roots ++ move.root?.toList) (s.perform (Session.host read n name?) move) := by
  obtain ⟨p, rfl, he⟩ | ⟨id, t, rfl, ht, hact⟩ | ⟨id, rfl, ht, he⟩ | ⟨rfl, he⟩ :=
    perform_cases (Session.host read n name?) s move
  · rw [he]
    simpa [gives?, finishes?, Move.root?] using hf.start p
  · obtain rfl := id_of_task? ht
    simpa [gives?, finishes?, Move.root?, ht] using hf.act hs ht hact
  · rw [he]
    simpa [gives?, finishes?, Move.root?, ht] using hf
  · exact absurd rfl hm

theorem run (hf : Flight given built roots s) (hs : s.Consistent) {moves : List Move}
    (hm : Move.clear ∉ moves) :
    Flight (given ++ s.observe (Session.host read n name?) gives? moves)
      (built ++ s.observe (Session.host read n name?) finishes? moves)
      (roots ++ Move.roots moves) (s.run (Session.host read n name?) moves) := by
  induction moves generalizing s given built roots with
  | nil => simpa [observe, Move.roots] using hf
  | cons move moves ih =>
    rw [List.mem_cons, not_or] at hm
    have hr := ih (hf.perform read n name? hs (Ne.symm hm.1)) (hs.perform move) hm.2
    have hroots : Move.roots (move :: moves) = move.root?.toList ++ Move.roots moves := by
      cases h : move.root? <;> simp [Move.roots, h]
    rwa [List.append_assoc, List.append_assoc, List.append_assoc, ← hroots] at hr

end Flight

end System

end CssModules
