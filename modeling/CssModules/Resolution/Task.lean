import CssModules.Error
import CssModules.Identifier.Escape
import CssModules.Resolution.Cache
import CssModules.Stylesheet.Parse

/-!
One resolution as a task that works in atomic steps: it claims a stylesheet, waits for another task
to finish one, or completes or releases one that it has claimed. All that a task does by itself
between two such steps belongs to the first of them.
-/

namespace CssModules

/-- What a task is surrounded by: how stylesheets are read and classes are named, both of which may
leave a mark on a state of type `σ`, and the mark that a released stylesheet leaves. -/
structure Host (σ : Type) where
  parse : Path → σ → Except Error Stylesheet × σ
  name : String → Path → σ → String × σ
  released : Path → σ → σ

/-- A composition from another stylesheet that waits for that one's map. -/
structure Pending where
  localAlias : String
  tokens : List String
  specifier : String
  target : Path
  deriving DecidableEq, Repr

/-- A stylesheet that is being worked on: its map so far, the composition that waits, if one does,
and those behind it. -/
structure Frame where
  path : Path
  tokens : TokenMap
  pending : Option Pending
  rest : List Composition
  deriving DecidableEq, Repr

/-- What a task does next. One that waits knows whether it has been notified since. -/
inductive Control where
  | claim (p : Path)
  | wait (p : Path) (notified : Bool)
  | complete (map : TokenMap)
  | release (e : Error)
  | done (answer : Except Error FinishedMap)

/-- A resolution: who it is, what it does next, and the stylesheets that it is inside of, innermost
first. -/
structure Task where
  id : ResolutionId
  control : Control
  frames : List Frame

namespace Task

/-- The stylesheets that some frames are inside of, outermost first. -/
def chain (frames : List Frame) : List Path := (frames.map Frame.path).reverse

def identifiersOf (map : TokenMap) (target : Path) (chain : List Path) (names : List String) :
    Except Error (List String) :=
  names.mapM fun name =>
    let token := Identifier.unescape name
    match map.get? token with
    | some identifiers => .ok identifiers
    | none => .error (.unknownComposedToken token target chain)

/-- Folds compositions into the map of the innermost stylesheet, up to one that needs another
stylesheet, and tells what to do next. -/
def fold (p : Path) (outer : List Frame) : TokenMap → List Composition → Control × List Frame
  | tokens, [] => (.complete tokens, ⟨p, tokens, none, []⟩ :: outer)
  | tokens, c :: rest =>
    let receiver := Identifier.unescape c.localAlias
    match c.source with
    | .everywhere =>
      fold p outer (tokens.compose receiver (c.tokens.map Identifier.unescape)) rest
    | .here =>
      match identifiersOf tokens p (chain outer ++ [p]) c.tokens with
      | .ok identifiers => fold p outer (tokens.compose receiver identifiers) rest
      | .error e => (.release e, ⟨p, tokens, none, rest⟩ :: outer)
    | .file specifier target =>
      (.claim target, ⟨p, tokens, some ⟨c.localAlias, c.tokens, specifier, target⟩, rest⟩ :: outer)

def receive (finished : FinishedMap) : List Frame → Control × List Frame
  | [] => (.done (.ok finished), [])
  | f :: outer =>
    match f.pending with
    | none => fold f.path outer f.tokens f.rest
    | some c =>
      match identifiersOf finished.map c.target (chain (f :: outer)) c.tokens with
      | .ok identifiers =>
        fold f.path outer (f.tokens.compose (Identifier.unescape c.localAlias) identifiers) f.rest
      | .error e => (.release e, { f with pending := none } :: outer)

/-- What a failure of the stylesheet that was asked for means to the one that asked: that the file
does not exist is the fault of the composition. -/
def blame (frames : List Frame) (e : Error) : Error :=
  match frames, e with
  | f :: _, .stylesheetNotFound missing =>
    match f.pending with
    | some c =>
      if missing.same c.target then
        .missingCompositionTarget f.path c.specifier (chain frames ++ [c.target])
      else e
    | none => e
  | _, _ => e

def fail (frames : List Frame) (e : Error) : Control × List Frame :=
  match frames with
  | [] => (.done (.error e), [])
  | _ => (.release (blame frames e), frames)

/-- The failure to ask for a stylesheet that cannot be finished before this one: the chain starts
where that stylesheet was first asked for. -/
def cycleError (chain : List Path) (p : Path) : Error :=
  let tail := chain.dropWhile fun q => !q.same p
  .cyclicComposition ((if tail.isEmpty then chain else tail) ++ [p])

def declare {σ : Type} (h : Host σ) (p : Path) :
    List String → TokenMap → σ → TokenMap × σ
  | [], tokens, s => (tokens, s)
  | name :: names, tokens, s =>
    let token := Identifier.unescape name
    if tokens.contains token then declare h p names tokens s
    else
      let (identifier, s) := h.name name p s
      declare h p names (tokens.insert token identifier) s

def notified (t : Task) : Task :=
  match t.control with
  | .wait p _ => { t with control := .wait p true }
  | _ => t

@[simp] theorem notified_id (t : Task) : t.notified.id = t.id := by
  unfold notified
  split <;> rfl

@[simp] theorem notified_frames (t : Task) : t.notified.frames = t.frames := by
  unfold notified
  split <;> rfl

/-- Begins with a stylesheet that has been claimed. -/
def enter {σ : Type} (h : Host σ) (p : Path) (outer : List Frame) (s : σ) :
    (Control × List Frame) × σ :=
  match h.parse p s with
  | (.error e, s) => ((.release e, ⟨p, .empty, none, []⟩ :: outer), s)
  | (.ok sheet, s) =>
    let (tokens, s) := declare h p sheet.localNames .empty s
    (fold p outer tokens sheet.compositions, s)

end Task

/-- All tasks with what they share: the cache, the number of maps finished so far, and the state of
the host. -/
structure System (σ : Type) where
  cache : Cache
  finished : Nat
  tasks : List Task
  state : σ

namespace System

variable {σ : Type}

def task? (s : System σ) (id : ResolutionId) : Option Task := s.tasks.find? (·.id == id)

def setTask (s : System σ) (t : Task) : System σ :=
  { s with tasks := s.tasks.map fun u => if u.id = t.id then t else u }

def notify (s : System σ) : System σ := { s with tasks := s.tasks.map Task.notified }

/-- A task asks for a stylesheet: it is given a finished map, or claims the stylesheet if nobody
has, or fails if waiting for the one who has would never end, or else waits. -/
def claim (h : Host σ) (s : System σ) (t : Task) (p : Path) : System σ :=
  match s.cache.slot? p.location with
  | none =>
    let ((control, frames), state) := Task.enter h p t.frames s.state
    { s with cache := s.cache.put p.location (.inProgress t.id), state := state }.setTask
      ⟨t.id, control, frames⟩
  | some (.ready finished) =>
    let (control, frames) := Task.receive finished t.frames
    s.setTask ⟨t.id, control, frames⟩
  | some (.inProgress owner) =>
    if owner == t.id || s.cache.leadsBackTo owner t.id then
      let (control, frames) := Task.fail t.frames (Task.cycleError (Task.chain t.frames) p)
      s.setTask ⟨t.id, control, frames⟩
    else
      { s with cache := s.cache.await t.id p.location }.setTask { t with control := .wait p false }

/-- The next atomic step of a task. A task that waits looks again, whether it was notified or woke
up by itself. -/
def stepTask (h : Host σ) (s : System σ) (t : Task) : System σ :=
  match t.control with
  | .done _ => s
  | .claim p => s.claim h t p
  | .wait p _ => { s with cache := s.cache.wake t.id }.claim h t p
  | .complete map =>
    match t.frames with
    | [] => s
    | f :: outer =>
      let finished : FinishedMap := ⟨s.finished, map⟩
      let (control, frames) := Task.receive finished outer
      ({ s with
        cache := s.cache.put f.path.location (.ready finished)
        finished := s.finished + 1 }.notify).setTask ⟨t.id, control, frames⟩
  | .release e =>
    match t.frames with
    | [] => s
    | f :: outer =>
      let (control, frames) := Task.fail outer e
      ({ s with
        cache := s.cache.release f.path.location
        state := h.released f.path s.state }.notify).setTask ⟨t.id, control, frames⟩

/-- The next atomic step of the task of a resolution. -/
def step (h : Host σ) (s : System σ) (id : ResolutionId) : System σ :=
  match s.task? id with
  | some t => s.stepTask h t
  | none => s

def answer? (s : System σ) (id : ResolutionId) : Option (Except Error FinishedMap) :=
  match (s.task? id).map Task.control with
  | some (.done answer) => some answer
  | _ => none

def start (s : System σ) (id : ResolutionId) (p : Path) : System σ :=
  { s with tasks := ⟨id, .claim p, []⟩ :: s.tasks }

def clear (s : System σ) : System σ := { s with cache := s.cache.clear }

/-- Steps of one task alone, until it has its answer. -/
def runAlone (h : Host σ) (id : ResolutionId) : (fuel : Nat) → System σ → System σ
  | 0, s => s
  | fuel + 1, s =>
    match s.answer? id with
    | some _ => s
    | none => runAlone h id fuel (s.step h id)

theorem id_of_task? {s : System σ} {id : ResolutionId} {t : Task} (h : s.task? id = some t) :
    t.id = id := by
  simpa using List.find?_some h

theorem task?_map (s : System σ) (f : Task → Task) (hf : ∀ t, (f t).id = t.id)
    (id : ResolutionId) :
    { s with tasks := s.tasks.map f }.task? id = (s.task? id).map f := by
  have he : (fun t => t.id == id) ∘ f = fun t => t.id == id := by
    funext t
    simp [hf t]
  simp only [task?, List.find?_map, he]

theorem task?_setTask (s : System σ) (t : Task) (id : ResolutionId) :
    (s.setTask t).task? id =
      if id = t.id then (s.task? id).map fun _ => t else s.task? id := by
  rw [setTask, task?_map]
  · cases hu : s.task? id with
    | none => simp
    | some u =>
      obtain rfl := id_of_task? hu
      split <;> simp_all
  · intro u
    split <;> simp_all

theorem task?_notify (s : System σ) (id : ResolutionId) :
    s.notify.task? id = (s.task? id).map Task.notified :=
  task?_map s Task.notified Task.notified_id id

theorem task?_start (s : System σ) (id id' : ResolutionId) (p : Path) :
    (s.start id p).task? id' = if id' = id then some ⟨id, .claim p, []⟩ else s.task? id' := by
  by_cases h : id' = id
  · simp [task?, start, h]
  · have hb : (id == id') = false := beq_eq_false_iff_ne.2 (Ne.symm h)
    simp [task?, start, h, hb]

@[simp] theorem cache_setTask (s : System σ) (t : Task) : (s.setTask t).cache = s.cache := rfl

@[simp] theorem finished_setTask (s : System σ) (t : Task) :
    (s.setTask t).finished = s.finished := rfl

@[simp] theorem state_setTask (s : System σ) (t : Task) : (s.setTask t).state = s.state := rfl

@[simp] theorem length_setTask (s : System σ) (t : Task) :
    (s.setTask t).tasks.length = s.tasks.length := List.length_map ..

@[simp] theorem cache_notify (s : System σ) : s.notify.cache = s.cache := rfl

@[simp] theorem finished_notify (s : System σ) : s.notify.finished = s.finished := rfl

@[simp] theorem state_notify (s : System σ) : s.notify.state = s.state := rfl

@[simp] theorem length_notify (s : System σ) : s.notify.tasks.length = s.tasks.length :=
  List.length_map ..

end System

end CssModules
