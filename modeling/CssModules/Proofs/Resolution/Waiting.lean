import CssModules.Resolution.Cache
import Mathlib.Data.Fintype.EquivFin
import Mathlib.Order.WellFounded
import Mathlib.Logic.Relation

namespace CssModules

open Relation

section Acyclic

variable {α : Type} {r r' : α → α → Prop} {a b : α}

theorem acyclic_mono (h : ∀ x, ¬ TransGen r x x) (hr : ∀ x y, r' x y → r x y) (x : α) :
    ¬ TransGen r' x x :=
  fun hx => h x (TransGen.mono hr x x hx)

theorem acyclic_of_sink (h : ∀ x, ¬ TransGen r x x) (hr : ∀ x y, r' x y → r x y ∨ y = a)
    (ha : ∀ y, ¬ r' a y) (x : α) : ¬ TransGen r' x x := by
  have key {x y : α} (hxy : TransGen r' x y) : TransGen r x y ∨ y = a := by
    induction hxy with
    | single hxy => exact (hr _ _ hxy).imp_left .single
    | tail _ hyz ih =>
      rcases ih with ih | rfl
      · exact (hr _ _ hyz).imp_left ih.tail
      · exact absurd hyz (ha _)
  intro hx
  rcases key hx with hx' | rfl
  · exact h x hx'
  · obtain ⟨y, hy, _⟩ := TransGen.head'_iff.1 hx
    exact ha y hy

theorem acyclic_of_edge (h : ∀ x, ¬ TransGen r x x) (hr : ∀ x y, r' x y → r x y ∨ x = a ∧ y = b)
    (hab : ¬ ReflTransGen r b a) (x : α) : ¬ TransGen r' x x := by
  have key {x y : α} (hxy : TransGen r' x y) :
      TransGen r x y ∨ ReflTransGen r x a ∧ ReflTransGen r b y := by
    induction hxy with
    | single hxy =>
      rcases hr _ _ hxy with hxy | ⟨rfl, rfl⟩
      · exact .inl (.single hxy)
      · exact .inr ⟨.refl, .refl⟩
    | tail _ hyz ih =>
      rcases ih with ih | ⟨ih, ih'⟩ <;> rcases hr _ _ hyz with hyz | ⟨rfl, rfl⟩
      · exact .inl (ih.tail hyz)
      · exact .inr ⟨ih.to_reflTransGen, .refl⟩
      · exact .inr ⟨ih, ih'.tail hyz⟩
      · exact absurd ih' hab
  intro hx
  rcases key hx with hx | ⟨hxa, hbx⟩
  · exact h x hx
  · exact hab (hbx.trans hxa)

theorem not_of_acyclic_of_lt {r : ℕ → ℕ → Prop} {P : ℕ → Prop} {n : ℕ}
    (h : ∀ x, ¬ TransGen r x x) (hlt : ∀ x, P x → x < n) (hr : ∀ x, P x → ∃ y, r x y ∧ P y)
    (x : ℕ) : ¬ P x := by
  intro hx
  let below (a b : Fin n) : Prop := TransGen r b.1 a.1
  have hirr : Std.Irrefl below := ⟨fun a => h a.1⟩
  have htrans : IsTrans (Fin n) below := ⟨fun _ _ _ hab hbc => hbc.trans hab⟩
  have hwf : WellFounded below := Finite.wellFounded_of_trans_of_irrefl below
  obtain ⟨a, ha, hmin⟩ := hwf.has_min {a | P a.1} ⟨⟨x, hlt x hx⟩, hx⟩
  obtain ⟨y, hay, hy⟩ := hr a.1 ha
  exact hmin ⟨y, hlt y hy⟩ hy (.single hay)

end Acyclic

namespace Cache

def owner? (c : Cache) (l : Location) : Option ResolutionId :=
  match c.slot? l with
  | some (.inProgress id) => some id
  | _ => none

/-- Whether one resolution waits for a stylesheet that another one is working on. -/
def WaitsFor (c : Cache) (id owner : ResolutionId) : Prop :=
  ∃ l, c.awaited? id = some l ∧ c.owner? l = some owner

variable {c c' : Cache} {me owner id : ResolutionId} {hops : ℕ} {l l' : Location}

theorem owner?_eq_some_iff : c.owner? l = some id ↔ c.slot? l = some (.inProgress id) := by
  unfold owner?
  split
  · next hs => simp [hs]
  · next hs => exact ⟨nofun, fun h => absurd h (hs id)⟩

theorem owner?_congr (h : c.slot? l = c'.slot? l) : c.owner? l = c'.owner? l := by
  rw [owner?, owner?, h]

theorem owner?_of_slot?_eq_none (h : c.slot? l = none) : c.owner? l = none := by
  rw [owner?, h]

theorem owner?_put_inProgress : (c.put l (.inProgress id)).owner? l' =
    if l' = l then some id else c.owner? l' := by
  rw [owner?, slot?_put]
  by_cases h : l' = l
  · simp [h]
  · simp [h, owner?]

theorem owner?_put_ready {finished : FinishedMap} : (c.put l (.ready finished)).owner? l' =
    if l' = l then none else c.owner? l' := by
  rw [owner?, slot?_put]
  by_cases h : l' = l
  · simp [h]
  · simp [h, owner?]

theorem owner?_release : (c.release l).owner? l' = if l' = l then none else c.owner? l' := by
  rw [owner?, slot?_release]
  by_cases h : l' = l
  · simp [h]
  · simp [h, owner?]

@[simp] theorem owner?_await : (c.await id l).owner? l' = c.owner? l' := rfl

@[simp] theorem owner?_wake : (c.wake id).owner? l = c.owner? l := rfl

@[simp] theorem owner?_clear : c.clear.owner? l = c.owner? l := by
  rw [owner?, slot?_clear, owner?]
  rcases c.slot? l with _ | (_ | _) <;> rfl

theorem leadsTo_succ_iff : c.leadsTo me (hops + 1) owner = true ↔
    ∃ next, c.WaitsFor owner next ∧ (next = me ∨ c.leadsTo me hops next = true) := by
  rw [leadsTo]
  constructor
  · intro h
    split at h
    · next next hn =>
      obtain ⟨l, hl, hs⟩ := Option.bind_eq_some_iff.1 hn
      exact ⟨next, ⟨l, hl, owner?_eq_some_iff.2 hs⟩, by simpa using h⟩
    · cases h
  · rintro ⟨next, ⟨l, hl, hs⟩, h⟩
    rw [hl, Option.bind_some, owner?_eq_some_iff.1 hs]
    simpa using h

theorem leadsTo_mono {hops' : ℕ} (hh : hops ≤ hops') (h : c.leadsTo me hops owner = true) :
    c.leadsTo me hops' owner = true := by
  induction hops generalizing owner hops' with
  | zero => cases h
  | succ hops ih =>
    cases hops' with
    | zero => omega
    | succ hops' =>
      rw [leadsTo_succ_iff] at h ⊢
      obtain ⟨next, hn, h⟩ := h
      exact ⟨next, hn, h.imp_right (ih (by omega))⟩

theorem transGen_of_leadsTo (h : c.leadsTo me hops owner = true) :
    TransGen c.WaitsFor owner me := by
  induction hops generalizing owner with
  | zero => cases h
  | succ hops ih =>
    obtain ⟨next, hn, rfl | h⟩ := leadsTo_succ_iff.1 h
    · exact .single hn
    · exact .head hn (ih h)

theorem exists_waiting_of_transGen (ha : ∀ id, ¬ TransGen c.WaitsFor id id)
    (h : TransGen c.WaitsFor owner me) : ∃ ids : List ResolutionId, ids.Nodup ∧
      (∀ id ∈ ids, (c.awaited? id).isSome ∧ ReflTransGen c.WaitsFor owner id) ∧
      c.leadsTo me ids.length owner = true := by
  induction h using TransGen.head_induction_on with
  | @single id hn =>
    refine ⟨[id], List.nodup_singleton _, ?_, leadsTo_succ_iff.2 ⟨me, hn, .inl rfl⟩⟩
    intro x hx
    obtain rfl := List.mem_singleton.1 hx
    obtain ⟨l, hl, _⟩ := hn
    exact ⟨by simp [hl], .refl⟩
  | @head id next hn _ ih =>
    obtain ⟨ids, hnd, hids, hlead⟩ := ih
    refine ⟨id :: ids, List.nodup_cons.2 ⟨?_, hnd⟩, ?_, leadsTo_succ_iff.2 ⟨next, hn, .inr hlead⟩⟩
    · intro hid
      exact ha id (.head' hn (hids id hid).2)
    · intro x hx
      rcases List.mem_cons.1 hx with rfl | hx
      · obtain ⟨l, hl, _⟩ := hn
        exact ⟨by simp [hl], .refl⟩
      · exact ⟨(hids x hx).1, .head hn (hids x hx).2⟩

theorem length_le_of_awaited {ids : List ResolutionId} (hn : ids.Nodup)
    (h : ∀ id ∈ ids, (c.awaited? id).isSome) : ids.length ≤ c.waiting.length := by
  have hs : ids ⊆ c.waiting.map Prod.fst := by
    intro id hid
    have hm : ∃ l, (id, l) ∈ c.waiting := by simpa [awaited?] using h id hid
    obtain ⟨l, hl⟩ := hm
    exact List.mem_map.2 ⟨(id, l), hl, rfl⟩
  simpa using (hn.subperm hs).length_le

/-- The bound on the hops cuts no chain of waits short. -/
theorem leadsBackTo_iff (ha : ∀ id, ¬ TransGen c.WaitsFor id id) :
    c.leadsBackTo owner me = true ↔ TransGen c.WaitsFor owner me := by
  constructor
  · exact transGen_of_leadsTo
  · intro h
    obtain ⟨ids, hn, hids, hlead⟩ := exists_waiting_of_transGen ha h
    have hl := length_le_of_awaited hn fun id hid => (hids id hid).1
    exact leadsTo_mono (by omega) hlead

end Cache

end CssModules
