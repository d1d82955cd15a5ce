import CssModules.Decimal.Binary64
import CssModules.Toml.Moment

namespace CssModules

/-- A value of a settings file. -/
inductive Toml where
  | string (text : String)
  | integer (n : Int)
  | float (x : Binary64)
  | boolean (b : Bool)
  | moment (m : Toml.Moment)
  | array (items : List Toml)
  | table (entries : List (String × Toml))

namespace Toml

abbrev Table := List (String × Toml)

mutual

def same : Toml → Toml → Bool
  | .string s, .string t => s == t
  | .integer m, .integer n => m == n
  | .float x, .float y => x == y
  | .boolean b, .boolean c => b == c
  | .moment m, .moment n => m == n
  | .array xs, .array ys => sameItems xs ys
  | .table es, .table fs => sameEntries es fs
  | _, _ => false

def sameItems : List Toml → List Toml → Bool
  | [], [] => true
  | x :: xs, y :: ys => same x y && sameItems xs ys
  | _, _ => false

def sameEntries : Table → Table → Bool
  | [], [] => true
  | (k, x) :: es, (l, y) :: fs => k == l && same x y && sameEntries es fs
  | _, _ => false

end

theorem sameItems_iff {xs : List Toml} (h : ∀ x ∈ xs, ∀ y, same x y = true ↔ x = y)
    (ys : List Toml) : sameItems xs ys = true ↔ xs = ys := by
  induction xs generalizing ys with
  | nil => cases ys <;> simp [sameItems]
  | cons x xs ih =>
    obtain ⟨hx, hxs⟩ := List.forall_mem_cons.1 h
    cases ys <;> simp [sameItems, hx, ih hxs]

theorem sameEntries_iff {es : Table} (h : ∀ e ∈ es, ∀ y, same e.2 y = true ↔ e.2 = y)
    (fs : Table) : sameEntries es fs = true ↔ es = fs := by
  induction es generalizing fs with
  | nil => cases fs <;> simp [sameEntries]
  | cons e es ih =>
    obtain ⟨hx, hes⟩ := List.forall_mem_cons.1 h
    cases fs <;> simp [sameEntries, hx, ih hes, Prod.ext_iff]

theorem same_iff (a b : Toml) : same a b = true ↔ a = b := by
  match a with
  | .array xs =>
    have hxs (x : Toml) (hx : x ∈ xs) : ∀ y, same x y = true ↔ x = y :=
      have := List.sizeOf_lt_of_mem hx
      same_iff x
    cases b <;> simp [same, sameItems_iff hxs]
  | .table es =>
    have hes (e : String × Toml) (he : e ∈ es) : ∀ y, same e.2 y = true ↔ e.2 = y :=
      have := List.sizeOf_lt_of_mem he
      have : sizeOf e = 1 + sizeOf e.1 + sizeOf e.2 := rfl
      same_iff e.2
    cases b <;> simp [same, sameEntries_iff hes]
  | .string _ | .integer _ | .float _ | .boolean _ | .moment _ => cases b <;> simp [same]
termination_by sizeOf a

instance : DecidableEq Toml := fun a b => decidable_of_decidable_of_iff (same_iff a b)

def get? (entries : Table) (key : String) : Option Toml := entries.lookup key

/-- A table with a value for a key: in the place of the one that the key had, or at the place that
the order of keys gives it. -/
def insert (key : String) (v : Toml) : Table → Table
  | [] => [(key, v)]
  | (k, old) :: entries =>
    if key = k then (k, v) :: entries
    else if key < k then (key, v) :: (k, old) :: entries
    else (k, old) :: insert key v entries

mutual

/-- A value with another one laid over it: tables are merged key by key, anything else is
replaced. -/
def merge : (base : Toml) → (overlay : Toml) → Toml
  | .table base, .table overlay => .table (mergeEntries base overlay)
  | _, overlay => overlay

/-- The entries of a table with those of another one laid over them. -/
def mergeEntries (base : Table) : (overlay : Table) → Table
  | [] => base
  | (key, v) :: overlay =>
    let merged := match get? base key with
      | some old => merge old v
      | none => v
    mergeEntries (insert key merged base) overlay

end

end Toml

end CssModules
