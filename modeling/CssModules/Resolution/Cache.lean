import CssModules.Lookup
import CssModules.Naming.Package
import CssModules.Resolution.TokenMap

namespace CssModules

abbrev ResolutionId := Nat

/-- A finished map. The number is that of the build that made it, so that two requests have been
given the very same map exactly if the numbers agree. -/
structure FinishedMap where
  number : Nat
  map : TokenMap
  deriving DecidableEq, Repr

/-- What is known of a stylesheet. -/
inductive Slot where
  | inProgress (owner : ResolutionId)
  | ready (finished : FinishedMap)
  deriving DecidableEq, Repr

/-- The shared state. No stylesheet has two slots. -/
structure Cache where
  slots : List (Location × Slot)
  waiting : List (ResolutionId × Location)
  distinct : (slots.map Prod.fst).Nodup
  deriving DecidableEq, Repr

namespace Cache

def empty : Cache := ⟨[], [], by simp⟩

def slot? (c : Cache) (l : Location) : Option Slot := c.slots.lookup l

theorem distinct_filter (c : Cache) (keep : Location × Slot → Bool) :
    ((c.slots.filter keep).map Prod.fst).Nodup :=
  List.Pairwise.sublist (List.filter_sublist.map _) c.distinct

def put (c : Cache) (l : Location) (s : Slot) : Cache :=
  { c with
    slots := (l, s) :: c.slots.filter (·.1 != l)
    distinct := by
      simp only [List.map_cons, List.nodup_cons]
      exact ⟨by simp, c.distinct_filter _⟩ }

def release (c : Cache) (l : Location) : Cache :=
  { c with slots := c.slots.filter (·.1 != l), distinct := c.distinct_filter _ }

def awaited? (c : Cache) (id : ResolutionId) : Option Location := c.waiting.lookup id

def await (c : Cache) (id : ResolutionId) (l : Location) : Cache :=
  { c with waiting := (id, l) :: c.waiting.filter (·.1 != id) }

def wake (c : Cache) (id : ResolutionId) : Cache :=
  { c with waiting := c.waiting.filter (·.1 != id) }

/-- Whether `hops` steps or fewer from a resolution to the one that it waits for lead from `owner`
to `me`. -/
def leadsTo (c : Cache) (me : ResolutionId) : (hops : Nat) → (owner : ResolutionId) → Bool
  | 0, _ => false
  | hops + 1, owner =>
    match (c.awaited? owner).bind c.slot? with
    | some (.inProgress next) => next == me || c.leadsTo me hops next
    | _ => false

/-- Whether `owner` waits, directly or through others, for what `me` is working on. One hop more
than there are waits is enough. -/
def leadsBackTo (c : Cache) (owner me : ResolutionId) : Bool :=
  c.leadsTo me (c.waiting.length + 1) owner

def get? (c : Cache) (l : Location) : Option FinishedMap :=
  match c.slot? l with
  | some (.ready finished) => some finished
  | _ => none

def isReady : Slot → Bool
  | .ready _ => true
  | .inProgress _ => false

def size (c : Cache) : Nat := c.slots.countP fun (_, s) => isReady s

/-- Forgets every finished map; what is being worked on stays. -/
def clear (c : Cache) : Cache :=
  { c with slots := c.slots.filter fun (_, s) => !isReady s, distinct := c.distinct_filter _ }

@[simp] theorem slot?_empty (l : Location) : empty.slot? l = none := rfl

@[simp] theorem awaited?_empty (id : ResolutionId) : empty.awaited? id = none := rfl

theorem slot?_put (c : Cache) (l l' : Location) (s : Slot) :
    (c.put l s).slot? l' = if l' = l then some s else c.slot? l' := by
  simpa [slot?, put] using lookup_replace c.slots l l' s

theorem slot?_release (c : Cache) (l l' : Location) :
    (c.release l).slot? l' = if l' = l then none else c.slot? l' := by
  simp [slot?, release, lookup_filter_ne]

theorem slot?_clear (c : Cache) (l : Location) :
    c.clear.slot? l = (c.slot? l).filter fun s => !isReady s :=
  lookup_filter_value c.distinct (fun s => !isReady s) l

@[simp] theorem slot?_await (c : Cache) (id : ResolutionId) (l l' : Location) :
    (c.await id l).slot? l' = c.slot? l' := rfl

@[simp] theorem slot?_wake (c : Cache) (id : ResolutionId) (l : Location) :
    (c.wake id).slot? l = c.slot? l := rfl

@[simp] theorem awaited?_put (c : Cache) (l : Location) (s : Slot) (id : ResolutionId) :
    (c.put l s).awaited? id = c.awaited? id := rfl

@[simp] theorem awaited?_release (c : Cache) (l : Location) (id : ResolutionId) :
    (c.release l).awaited? id = c.awaited? id := rfl

@[simp] theorem awaited?_clear (c : Cache) (id : ResolutionId) :
    c.clear.awaited? id = c.awaited? id := rfl

theorem awaited?_await (c : Cache) (id id' : ResolutionId) (l : Location) :
    (c.await id l).awaited? id' = if id' = id then some l else c.awaited? id' := by
  simpa [awaited?, await] using lookup_replace c.waiting id id' l

theorem awaited?_wake (c : Cache) (id id' : ResolutionId) :
    (c.wake id).awaited? id' = if id' = id then none else c.awaited? id' := by
  simp [awaited?, wake, lookup_filter_ne]

end Cache

end CssModules
