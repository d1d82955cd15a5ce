import CssModules.Proofs.Resolution.Ownership

namespace CssModules

open Relation

namespace System

variable {σ : Type} {h : Host σ} {files : Set Path} {X : System σ → Prop}
  {T : Path → Control → List Frame → Prop} {R : Location → TokenMap → Prop} {I : σ → Prop}
  {roots : List Path} {s s' : System σ} {t : Task} {p : Path}

/-- Every task stands in the relation `T` to the stylesheet that it began with, every finished map in
the relation `R` to its place, and the state of the host has the property `I`. -/
structure Upholds (T : Path → Control → List Frame → Prop) (R : Location → TokenMap → Prop)
    (I : σ → Prop) (roots : List Path) (s : System σ) : Prop extends Tracked T roots s where
  state : I s.state
  ready {l : Location} {finished : FinishedMap} :
    s.cache.slot? l = some (.ready finished) → R l finished.map

/-- What a host and the tasks by themselves have to do so that all steps keep `T`, `R` and `I`,
between systems that have the property `X`. -/
structure Stable (h : Host σ) (files : Set Path) (X : System σ → Prop)
    (T : Path → Control → List Frame → Prop) (R : Location → TokenMap → Prop) (I : σ → Prop) :
    Prop where
  consistent {s : System σ} : X s → s.Consistent
  start {p : Path} : p ∈ files → T p (.claim p) []
  wait {root p : Path} {control : Control} {frames : List Frame} (notified : Bool) :
    T root control frames → control.request? = some p → T root (.wait p notified) frames
  enter {s s' : System σ} {t : Task} {root p : Path} : X s → X s' → s.task? t.id = some t →
    t.control.request? = some p → s.cache.slot? p.location = none →
    s'.state = (Task.enter h p t.frames s.state).2 → I s.state → T root t.control t.frames →
    T root (Task.enter h p t.frames s.state).1.1 (Task.enter h p t.frames s.state).1.2 ∧ I s'.state
  receive {root p : Path} {control : Control} {frames : List Frame} {finished : FinishedMap} :
    T root control frames → control.request? = some p → R p.location finished.map →
    T root (Task.receive finished frames).1 (Task.receive finished frames).2
  refuse {s : System σ} {roots : List Path} {t : Task} {root p : Path} {owner : ResolutionId} :
    X s → Upholds T R I roots s → s.task? t.id = some t → t.control.request? = some p →
    s.cache.owner? p.location = some owner →
    owner = t.id ∨ TransGen s.cache.WaitsFor owner t.id → T root t.control t.frames →
    T root (Task.fail t.frames (Task.cycleError (Task.chain t.frames) p)).1
      (Task.fail t.frames (Task.cycleError (Task.chain t.frames) p)).2
  complete {root : Path} {map : TokenMap} {f : Frame} {outer : List Frame} (number : ℕ) :
    T root (.complete map) (f :: outer) → R f.path.location map ∧
      T root (Task.receive ⟨number, map⟩ outer).1 (Task.receive ⟨number, map⟩ outer).2
  release {root : Path} {e : Error} {f : Frame} {outer : List Frame} {state : σ} :
    T root (.release e) (f :: outer) → I state →
    T root (Task.fail outer e).1 (Task.fail outer e).2 ∧ I (h.released f.path state)

theorem upholds_initial {state : σ} (hI : I state) : Upholds T R I [] (initial state) where
  toTracked := tracked_initial state
  state := hI
  ready := nofun

theorem Upholds.start (hs : Upholds T R I roots s) (hp : T p (.claim p) []) :
    Upholds T R I (roots ++ [p]) (s.start s.freshId p) where
  toTracked := hs.toTracked.start hp
  state := hs.state
  ready := hs.ready

theorem Upholds.clear (hs : Upholds T R I roots s) : Upholds T R I roots s.clear where
  length := hs.length
  state := hs.state
  ready {l finished} hl := by
    rw [System.clear, Cache.slot?_clear, Option.filter_eq_some_iff] at hl
    cases hl.2
  task := hs.task

namespace Stable

theorem notified (hk : Stable h files X T R I) {root : Path} {t : Task}
    (hT : T root t.control t.frames) : T root t.notified.control t.notified.frames := by
  unfold Task.notified
  split
  · next p _ hc => exact hk.wait true hT (by rw [hc]; rfl)
  · exact hT

theorem turn (hk : Stable h files X T R I) (hs : Upholds T R I roots s) {t' : Task}
    (hT : Turn s s' t t') (hI : I s'.state)
    (hready : ∀ l finished, s'.cache.slot? l = some (.ready finished) →
      s.cache.slot? l = some (.ready finished) ∨ R l finished.map)
    (hself : ∀ root, T root t.control t.frames → T root t'.control t'.frames) :
    Upholds T R I roots s' where
  toTracked := hs.toTracked.turn hT hself fun _ _ hu => ⟨hu, hk.notified hu⟩
  state := hI
  ready {l finished} hl := (hready l finished hl).elim hs.ready id

theorem act (hk : Stable h files X T R I) (hs : Upholds T R I roots s) (hX : X s) (hX' : X s')
    (ht : s.task? t.id = some t) (hact : Act h s t s') : Upholds T R I roots s' := by
  have hsame {c : Cache} (hc : ∀ l, c.slot? l = s.cache.slot? l) (l : Location)
      (finished : FinishedMap) (hl : c.slot? l = some (.ready finished)) :
      s.cache.slot? l = some (.ready finished) ∨ R l finished.map := .inl (hc l ▸ hl)
  cases hact with
  | idle => exact hs
  | @enter p control frames state ha hn he =>
    have hent (root : Path) (hT : T root t.control t.frames) :=
      hk.enter hX hX' ht ha hn (by rw [he]; rfl) hs.state hT
    simp only [he] at hent
    obtain ⟨root, -, hT⟩ := hs.task ht
    refine hk.turn hs (turn_setTask ht rfl) (hent root hT).2 (fun l finished hl => ?_)
      fun root hT => (hent root hT).1
    rw [cache_setTask, Cache.slot?_put, Task.slot?_rouse] at hl
    split at hl
    · cases hl
    · exact .inl hl
  | @hit p finished control frames ha hready he =>
    refine hk.turn hs (turn_setTask ht rfl) hs.state (hsame (t.slot?_rouse s.cache))
      fun root hT => ?_
    have hr := hk.receive hT ha (hs.ready hready)
    rwa [he] at hr
  | @refuse p owner control frames ha hslot ho he =>
    have hw : owner = t.id ∨ TransGen s.cache.WaitsFor owner t.id := by
      refine ho.imp_right fun hl => ?_
      exact TransGen.mono (fun _ _ hw => (((hk.consistent hX).waitsFor_rouse ht).1 hw).2) _ _
        (Cache.transGen_of_leadsTo hl)
    refine hk.turn hs (turn_setTask ht rfl) hs.state (hsame (t.slot?_rouse s.cache))
      fun root hT => ?_
    have hr := hk.refuse hX hs ht ha (Cache.owner?_eq_some_iff.2 hslot) hw hT
    rwa [he] at hr
  | @wait p _ ha =>
    refine hk.turn hs (turn_setTask ht rfl) hs.state (hsame fun l => ?_)
      fun root hT => hk.wait false hT ha
    rw [cache_setTask, Cache.slot?_await, Task.slot?_rouse]
  | @complete map f outer control frames hc hfr he =>
    have hdone (root : Path) (hT : T root t.control t.frames) :=
      hk.complete s.finished (hc ▸ hfr ▸ hT)
    simp only [he] at hdone
    obtain ⟨root, -, hT⟩ := hs.task ht
    refine hk.turn hs (turn_notify_setTask ht rfl) hs.state (fun l finished hl => ?_)
      fun root hT => (hdone root hT).2
    rw [cache_setTask, cache_notify, Cache.slot?_put] at hl
    split at hl
    · next hl' =>
      cases hl
      exact .inr (hl' ▸ (hdone root hT).1)
    · exact .inl hl
  | @release e f outer control frames hc hfr he =>
    have hgone (root : Path) (hT : T root t.control t.frames) :=
      hk.release (hc ▸ hfr ▸ hT) hs.state
    simp only [he] at hgone
    obtain ⟨root, -, hT⟩ := hs.task ht
    refine hk.turn hs (turn_notify_setTask ht rfl) (hgone root hT).2 (fun l finished hl => ?_)
      fun root hT => (hgone root hT).1
    rw [cache_setTask, cache_notify, Cache.slot?_release] at hl
    split at hl
    · cases hl
    · exact .inl hl

theorem perform (hk : Stable h files X T R I) (hs : Upholds T R I roots s) (hX : X s) {move : Move}
    (hX' : X (s.perform h move)) (hm : ∀ p, move.root? = some p → p ∈ files) :
    Upholds T R I (roots ++ move.root?.toList) (s.perform h move) := by
  obtain ⟨p, rfl, he⟩ | ⟨id, t, rfl, ht, hact⟩ | ⟨id, rfl, _, he⟩ | ⟨rfl, he⟩ :=
    perform_cases h s move
  · rw [he]
    exact hs.start (hk.start (hm p rfl))
  · obtain rfl := id_of_task? ht
    simpa [Move.root?] using hk.act hs hX hX' ht hact
  · rw [he]
    simpa [Move.root?] using hs
  · rw [he]
    simpa [Move.root?] using hs.clear

theorem run (hk : Stable h files X T R I) {state : σ} (hI : I state) {moves : List Move}
    (hm : ∀ p ∈ Move.roots moves, p ∈ files)
    (hX : ∀ before, before <+: moves → X ((initial state).run h before)) :
    Upholds T R I (Move.roots moves) ((initial state).run h moves) := by
  -- From the last move back, for a new root is a new last one.
  induction moves using List.reverseRecOn with
  | nil => exact upholds_initial hI
  | append_singleton moves move ih =>
    have hX' := hX _ (List.prefix_refl _)
    rw [Move.roots, List.filterMap_append, ← Move.roots] at hm ⊢
    rw [run_append, run_singleton] at hX' ⊢
    have hs := ih (fun p hp => hm p (List.mem_append_left _ hp)) fun before hb =>
      hX before (hb.trans (List.prefix_append ..))
    have hp := hk.perform hs (hX moves (List.prefix_append ..)) hX' fun p hp => hm p (by simp [hp])
    cases hr : move.root? <;> simpa [hr] using hp

end Stable

end System

end CssModules
