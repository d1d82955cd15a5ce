import CssModules.Proofs.Resolution.Waiting
import CssModules.Resolution.Resolver

namespace CssModules

/-- What can happen to a system. -/
inductive Move where
  | start (p : Path)
  | step (id : ResolutionId)
  | clear
  deriving DecidableEq, Repr

def Move.root? : Move → Option Path
  | .start p => some p
  | _ => none

/-- The stylesheets that resolutions of some moves begin with, each at the place that is the number
of its resolution. -/
def Move.roots (moves : List Move) : List Path := moves.filterMap Move.root?

def Control.request? : Control → Option Path
  | .claim p => some p
  | .wait p _ => some p
  | _ => none

namespace Task

def rouse (t : Task) (c : Cache) : Cache :=
  match t.control with
  | .wait _ _ => c.wake t.id
  | _ => c

@[simp] theorem slot?_rouse (t : Task) (c : Cache) (l : Location) :
    (t.rouse c).slot? l = c.slot? l := by
  unfold rouse
  split <;> rfl

end Task

namespace System

variable {σ : Type}

def perform (h : Host σ) (s : System σ) : Move → System σ
  | .start p => s.start s.freshId p
  | .step id => s.step h id
  | .clear => s.clear

def run (h : Host σ) (s : System σ) (moves : List Move) : System σ := moves.foldl (perform h) s

@[simp] theorem run_nil (h : Host σ) (s : System σ) : s.run h [] = s := rfl

@[simp] theorem run_append (h : Host σ) (s : System σ) (moves moves' : List Move) :
    s.run h (moves ++ moves') = (s.run h moves).run h moves' := List.foldl_append

@[simp] theorem run_singleton (h : Host σ) (s : System σ) (move : Move) :
    s.run h [move] = s.perform h move := rfl

/-- What one step of a task comes to. -/
inductive Act (h : Host σ) (s : System σ) (t : Task) : System σ → Prop
  | idle (ha : ∀ p, t.control.request? ≠ some p)
      (hc : ∀ f outer map, t.frames = f :: outer → t.control ≠ .complete map)
      (hr : ∀ f outer e, t.frames = f :: outer → t.control ≠ .release e) : Act h s t s
  | enter {p control frames state} (ha : t.control.request? = some p)
      (hs : s.cache.slot? p.location = none)
      (he : Task.enter h p t.frames s.state = ((control, frames), state)) :
      Act h s t ({ s with
        cache := (t.rouse s.cache).put p.location (.inProgress t.id)
        state := state }.setTask ⟨t.id, control, frames⟩)
  | hit {p finished control frames} (ha : t.control.request? = some p)
      (hs : s.cache.slot? p.location = some (.ready finished))
      (hr : Task.receive finished t.frames = (control, frames)) :
      Act h s t ({ s with cache := t.rouse s.cache }.setTask ⟨t.id, control, frames⟩)
  | refuse {p owner control frames} (ha : t.control.request? = some p)
      (hs : s.cache.slot? p.location = some (.inProgress owner))
      (ho : owner = t.id ∨ (t.rouse s.cache).leadsBackTo owner t.id = true)
      (hf : Task.fail t.frames (Task.cycleError (Task.chain t.frames) p) = (control, frames)) :
      Act h s t ({ s with cache := t.rouse s.cache }.setTask ⟨t.id, control, frames⟩)
  | wait {p owner} (ha : t.control.request? = some p)
      (hs : s.cache.slot? p.location = some (.inProgress owner)) (ho : owner ≠ t.id)
      (hl : (t.rouse s.cache).leadsBackTo owner t.id = false) :
      Act h s t ({ s with cache := (t.rouse s.cache).await t.id p.location }.setTask
        { t with control := .wait p false })
  | complete {map f outer control frames} (hc : t.control = .complete map)
      (hf : t.frames = f :: outer)
      (hr : Task.receive ⟨s.finished, map⟩ outer = (control, frames)) :
      Act h s t (({ s with
        cache := s.cache.put f.path.location (.ready ⟨s.finished, map⟩)
        finished := s.finished + 1 }.notify).setTask ⟨t.id, control, frames⟩)
  | release {e f outer control frames} (hc : t.control = .release e) (hf : t.frames = f :: outer)
      (he : Task.fail outer e = (control, frames)) :
      Act h s t (({ s with
        cache := s.cache.release f.path.location
        state := h.released f.path s.state }.notify).setTask ⟨t.id, control, frames⟩)

theorem claim_act (h : Host σ) (s : System σ) (t : Task) {p : Path}
    (ha : t.control.request? = some p) :
    Act h s t ({ s with cache := t.rouse s.cache }.claim h t p) := by
  unfold claim
  split
  · next hs => exact .enter ha (by simpa using hs) rfl
  · next finished hs => exact .hit ha (by simpa using hs) rfl
  · next owner hs =>
    split
    · next ho => exact .refuse ha (by simpa using hs) (by simpa using ho) rfl
    · next ho =>
      rw [Bool.or_eq_true, not_or, beq_iff_eq, Bool.not_eq_true] at ho
      exact .wait ha (by simpa using hs) ho.1 ho.2

theorem stepTask_act (h : Host σ) (s : System σ) (t : Task) : Act h s t (s.stepTask h t) := by
  obtain ⟨id, control, frames⟩ := t
  cases control with
  | claim p => exact claim_act h s ⟨id, .claim p, frames⟩ rfl
  | wait p notified => exact claim_act h s ⟨id, .wait p notified, frames⟩ rfl
  | done answer => exact .idle nofun nofun nofun
  | complete map =>
    cases frames with
    | nil => exact .idle nofun nofun nofun
    | cons f outer => exact .complete rfl rfl rfl
  | release e =>
    cases frames with
    | nil => exact .idle nofun nofun nofun
    | cons f outer => exact .release rfl rfl rfl

/-- A move begins a resolution, is one of the steps of a task, or forgets the finished maps, unless
it is the step of a resolution that has not begun. -/
theorem perform_cases (h : Host σ) (s : System σ) (move : Move) :
    (∃ p, move = .start p ∧ s.perform h move = s.start s.freshId p) ∨
    (∃ id t, move = .step id ∧ s.task? id = some t ∧ Act h s t (s.perform h move)) ∨
    (∃ id, move = .step id ∧ s.task? id = none ∧ s.perform h move = s) ∨
    (move = .clear ∧ s.perform h move = s.clear) := by
  cases move with
  | start p => exact .inl ⟨p, rfl, rfl⟩
  | clear => exact .inr (.inr (.inr ⟨rfl, rfl⟩))
  | step id =>
    cases ht : s.task? id with
    | none => exact .inr (.inr (.inl ⟨id, rfl, ht, by simp [perform, step, ht]⟩))
    | some t =>
      refine .inr (.inl ⟨id, t, rfl, ht, ?_⟩)
      simp only [perform, step, ht]
      exact stepTask_act h s t

end System

end CssModules
