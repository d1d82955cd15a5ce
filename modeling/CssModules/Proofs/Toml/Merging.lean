import CssModules.Toml.Value
import Mathlib.Data.List.Basic
import Mathlib.Data.String.Basic

namespace CssModules.Toml

/-- A value in which the keys of all tables ascend. -/
inductive Ordered : Toml → Prop where
  | scalar {v : Toml} (harray : ∀ items, v ≠ .array items)
      (htable : ∀ entries, v ≠ .table entries) : Ordered v
  | array {items : List Toml} (h : ∀ v ∈ items, Ordered v) : Ordered (.array items)
  | table {entries : Table} (hkeys : entries.Pairwise fun e e' => e.1 < e'.1)
      (h : ∀ e ∈ entries, Ordered e.2) : Ordered (.table entries)

variable {entries entries' base overlay : Table} {key k : String} {v old : Toml}

theorem Ordered.keys (h : Ordered (.table entries)) : entries.Pairwise fun e e' => e.1 < e'.1 := by
  cases h with
  | scalar _ htable => exact absurd rfl (htable entries)
  | table hkeys => exact hkeys

theorem Ordered.entry (h : Ordered (.table entries)) {e : String × Toml} (he : e ∈ entries) :
    Ordered e.2 := by
  cases h with
  | scalar _ htable => exact absurd rfl (htable entries)
  | table _ h => exact h e he

theorem Ordered.tail {e : String × Toml} (h : Ordered (.table (e :: entries))) :
    Ordered (.table entries) :=
  .table h.keys.of_cons fun _ he => h.entry (List.mem_cons_of_mem _ he)

theorem get?_cons (e : String × Toml) (entries : Table) (key : String) :
    get? (e :: entries) key = if key = e.1 then some e.2 else get? entries key := by
  rw [get?, get?, List.lookup_cons]
  by_cases h : key = e.1
  · rw [if_pos h, beq_iff_eq.2 h]
  · rw [if_neg h, beq_eq_false_iff_ne.2 h]

theorem mem_of_get? (h : get? entries key = some v) : (key, v) ∈ entries := by
  induction entries with
  | nil => cases h
  | cons e entries ih =>
    rw [get?_cons] at h
    split at h
    · next hkey =>
      cases h
      rw [hkey]
      exact List.mem_cons_self ..
    · exact List.mem_cons_of_mem _ (ih h)

theorem get?_eq_none (h : ∀ e ∈ entries, e.1 ≠ key) : get? entries key = none := by
  by_contra hne
  obtain ⟨v, hv⟩ := Option.ne_none_iff_exists'.1 hne
  exact h _ (mem_of_get? hv) rfl

theorem Ordered.get? (h : Ordered (.table entries)) (hv : get? entries key = some v) : Ordered v :=
  h.entry (mem_of_get? hv)

theorem Ordered.get?_of_mem (h : Ordered (.table entries)) (hmem : (key, v) ∈ entries) :
    Toml.get? entries key = some v := by
  induction entries with
  | nil => cases hmem
  | cons e entries ih =>
    rw [get?_cons]
    rcases List.mem_cons.1 hmem with rfl | hmem
    · exact if_pos rfl
    · have hlt := List.rel_of_pairwise_cons h.keys hmem
      rw [if_neg (ne_of_gt hlt)]
      exact ih h.tail hmem

theorem Ordered.ext (h : Ordered (.table entries)) (h' : Ordered (.table entries'))
    (hget : ∀ k, Toml.get? entries k = Toml.get? entries' k) : entries = entries' := by
  refine List.Perm.eq_of_pairwise (fun e e' _ _ hlt hgt => absurd hgt (lt_asymm hlt)) h.keys h'.keys
    ?_
  have hnodup {entries : Table} (h : Ordered (.table entries)) : entries.Nodup :=
    h.keys.imp fun hlt he => absurd (congrArg Prod.fst he) (ne_of_lt hlt)
  refine (List.perm_ext_iff_of_nodup (hnodup h) (hnodup h')).2 fun e => ?_
  constructor
  · intro he
    exact mem_of_get? ((hget e.1).symm.trans (h.get?_of_mem he))
  · intro he
    exact mem_of_get? ((hget e.1).trans (h'.get?_of_mem he))

theorem get?_insert (key k : String) (v : Toml) (entries : Table) :
    get? (insert key v entries) k = if k = key then some v else get? entries k := by
  induction entries with
  | nil => exact get?_cons (key, v) [] k
  | cons e entries ih =>
    obtain ⟨key', old⟩ := e
    rw [insert]
    split
    · next hkey =>
      rw [get?_cons, get?_cons, hkey]
      split <;> rfl
    · next hkey =>
      split
      · rw [get?_cons]
      · rw [get?_cons, get?_cons, ih]
        split
        · next hk => rw [if_neg fun he => hkey (he.symm.trans hk)]
        · rfl

theorem mem_insert {e : String × Toml} (h : e ∈ insert key v entries) :
    e = (key, v) ∨ e ∈ entries := by
  induction entries with
  | nil => exact .inl (List.mem_singleton.1 h)
  | cons e' entries ih =>
    obtain ⟨key', old⟩ := e'
    rw [insert] at h
    split at h
    · next hkey =>
      rw [hkey]
      exact (List.mem_cons.1 h).imp_right (List.mem_cons_of_mem _)
    · split at h
      · exact List.mem_cons.1 h
      · rcases List.mem_cons.1 h with rfl | h
        · exact .inr (List.mem_cons_self ..)
        · exact (ih h).imp_right (List.mem_cons_of_mem _)

theorem Ordered.insert (h : Ordered (.table entries)) (hv : Ordered v) :
    Ordered (.table (insert key v entries)) := by
  refine .table ?_ fun e he => ?_
  · replace h := h.keys
    induction entries with
    | nil => exact List.pairwise_singleton ..
    | cons e entries ih =>
      obtain ⟨key', old⟩ := e
      rw [Toml.insert]
      split
      · exact .cons (fun e he => List.rel_of_pairwise_cons h he) h.of_cons
      · next hkey =>
        split
        · next hlt =>
          refine .cons (fun e he => ?_) h
          rcases List.mem_cons.1 he with rfl | he
          · exact hlt
          · exact lt_trans hlt (List.rel_of_pairwise_cons h he)
        · next hlt =>
          refine .cons (fun e he => ?_) (ih h.of_cons)
          rcases mem_insert he with rfl | he
          · exact lt_of_le_of_ne (not_lt.1 hlt) (Ne.symm hkey)
          · exact List.rel_of_pairwise_cons h he
  · rcases mem_insert he with rfl | he
    · exact hv
    · exact h.entry he

theorem Ordered.nil : Ordered (.table []) := .table .nil nofun

theorem merge_table :
    merge (.table base) (.table overlay) = .table (mergeEntries base overlay) := by
  rw [merge]

theorem merge_of_left (hold : ∀ entries, old ≠ .table entries) : merge old v = v := by
  cases old with
  | table entries => exact absurd rfl (hold entries)
  | _ =>
    rw [merge]
    rintro base overlay ⟨⟩

theorem merge_of_right (hv : ∀ entries, v ≠ .table entries) : merge old v = v := by
  cases v with
  | table entries => exact absurd rfl (hv entries)
  | _ =>
    rw [merge]
    rintro base overlay - ⟨⟩

theorem get?_mergeEntries (h : Ordered (.table overlay)) (base : Table) (key : String) :
    get? (mergeEntries base overlay) key =
      ((get? overlay key).map fun v => (get? base key).elim v (merge · v)).or (get? base key) := by
  induction overlay generalizing base with
  | nil =>
    rw [mergeEntries]
    rfl
  | cons e overlay ih =>
    obtain ⟨key', v⟩ := e
    have hmerged : mergeEntries base ((key', v) :: overlay) =
        mergeEntries (insert key' ((get? base key').elim v (merge · v)) base) overlay := by
      rw [mergeEntries]
      cases get? base key' <;> rfl
    rw [hmerged, ih h.tail, get?_insert, get?_cons]
    -- Keys ascend, so that what was put at `key'` is not merged with once more.
    split
    · next hkey =>
      rw [hkey, get?_eq_none fun e he => (ne_of_gt (List.rel_of_pairwise_cons h.keys he))]
      rfl
    · rfl

theorem Ordered.merge (hold : Ordered old) (hv : Ordered v) : Ordered (merge old v) := by
  induction hv generalizing old with
  | scalar harray htable =>
    rw [merge_of_right htable]
    exact .scalar harray htable
  | @array items h =>
    rw [merge_of_right (v := .array items) nofun]
    exact .array h
  | @table overlay hkeys h ih =>
    by_cases htable : ∃ base, old = .table base
    · obtain ⟨base, rfl⟩ := htable
      rw [merge_table]
      clear hkeys
      induction overlay generalizing base with
      | nil =>
        rw [mergeEntries]
        exact hold
      | cons e overlay ihOverlay =>
        rw [mergeEntries]
        have he := List.mem_cons_self (a := e) (l := overlay)
        have hmem {e' : String × Toml} : e' ∈ overlay → e' ∈ e :: overlay := List.mem_cons_of_mem e
        refine ihOverlay (fun e' he' => h e' (hmem he')) (fun e' he' => ih e' (hmem he')) _
          (hold.insert ?_)
        split
        · next hget => exact ih e he (hold.get? hget)
        · exact h e he
    · rw [merge_of_left fun base he => htable ⟨base, he⟩]
      exact .table hkeys h

theorem Ordered.mergeEntries (h : Ordered (.table base)) (h' : Ordered (.table overlay)) :
    Ordered (.table (mergeEntries base overlay)) :=
  merge_table ▸ h.merge h'

theorem merge_self (h : Ordered v) : merge v v = v := by
  induction h with
  | scalar harray htable => exact merge_of_right htable
  | array => exact merge_of_right nofun
  | @table entries hkeys h ih =>
    have htable := Ordered.table hkeys h
    rw [merge_table]
    refine congrArg _ ((htable.mergeEntries htable).ext htable fun k => ?_)
    rw [get?_mergeEntries htable]
    cases hget : get? entries k with
    | none => rfl
    | some v => exact congrArg some (ih _ (mem_of_get? hget))

theorem merge_merge (hold : Ordered old) (hv : Ordered v) :
    merge (merge old v) v = merge old v := by
  induction hv generalizing old with
  | scalar harray htable => rw [merge_of_right htable, merge_of_right htable]
  | @array items =>
    have hright {old : Toml} : merge old (.array items) = .array items := merge_of_right nofun
    rw [hright, hright]
  | @table overlay hkeys h ih =>
    have htable := Ordered.table hkeys h
    by_cases hbase : ∃ base, old = .table base
    · obtain ⟨base, rfl⟩ := hbase
      rw [merge_table, merge_table]
      have hmerged := hold.mergeEntries htable
      refine congrArg _ ((hmerged.mergeEntries htable).ext hmerged fun k => ?_)
      rw [get?_mergeEntries htable, get?_mergeEntries htable]
      cases hoverlay : get? overlay k with
      | none => rfl
      | some v =>
        cases hbase : get? base k with
        | none => exact congrArg some (merge_self (htable.get? hoverlay))
        | some old => exact congrArg some (ih _ (mem_of_get? hoverlay) (hold.get? hbase))
    · rw [merge_of_left fun base he => hbase ⟨base, he⟩]
      exact merge_self htable

theorem mergeEntries_mergeEntries (h : Ordered (.table base)) (h' : Ordered (.table overlay)) :
    mergeEntries (mergeEntries base overlay) overlay = mergeEntries base overlay := by
  simpa only [merge_table, table.injEq] using merge_merge h h'

end CssModules.Toml
