namespace CssModules

variable {α β : Type} [BEq α] [LawfulBEq α]

theorem lookup_filter_ne (xs : List (α × β)) (a b : α) :
    (xs.filter (·.1 != a)).lookup b = if b == a then none else xs.lookup b := by
  induction xs with
  | nil => simp
  | cons x xs ih =>
    obtain ⟨c, y⟩ := x
    rw [List.filter_cons, List.lookup_cons]
    by_cases hca : c = a
    · subst c
      cases hb : b == a <;> simp [ih, hb]
    · have hc : (c != a) = true := by simpa using hca
      simp only [hc, ↓reduceIte, List.lookup_cons, ih]
      cases hb : b == c with
      | false => rfl
      | true =>
        obtain rfl := eq_of_beq hb
        simp [hca]

theorem lookup_replace (xs : List (α × β)) (a b : α) (y : β) :
    ((a, y) :: xs.filter (·.1 != a)).lookup b = if b == a then some y else xs.lookup b := by
  rw [List.lookup_cons, lookup_filter_ne]
  cases b == a <;> rfl

theorem lookup_filter_value {xs : List (α × β)} (hx : (xs.map Prod.fst).Nodup)
    (keep : β → Bool) (a : α) :
    (xs.filter (keep ·.2)).lookup a = (xs.lookup a).filter keep := by
  induction xs with
  | nil => simp
  | cons x xs ih =>
    obtain ⟨c, y⟩ := x
    simp only [List.map_cons, List.nodup_cons] at hx
    rw [List.filter_cons, List.lookup_cons]
    cases ha : a == c with
    | false =>
      cases hk : keep y <;> simp [ha, ih hx.2, List.lookup_cons]
    | true =>
      obtain rfl := eq_of_beq ha
      have hn : (xs.filter (keep ·.2)).lookup a = none := by
        rw [List.lookup_eq_none_iff]
        intro z hz
        have hm : z.1 ∈ xs.map Prod.fst := List.mem_map_of_mem (List.mem_filter.1 hz).1
        rw [bne_iff_ne]
        intro he
        exact hx.1 (he ▸ hm)
      cases hk : keep y <;> simp [hk, hn, Option.filter]

end CssModules
