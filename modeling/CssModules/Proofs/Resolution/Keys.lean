import CssModules.Proofs.Resolution.Sessions

namespace CssModules

namespace TokenMap

def keys (m : TokenMap) : List String := m.entries.map Prod.fst

def SameKeys (m m' : TokenMap) : Prop := m.keys = m'.keys

variable {m m' : TokenMap} {name : String}

theorem contains_iff : m.contains name = true ↔ name ∈ m.keys := by
  rw [contains, get?, List.lookup_isSome_iff, keys, List.mem_map]
  constructor
  · rintro ⟨entry, he, hn⟩
    exact ⟨entry, he, (eq_of_beq hn).symm⟩
  · rintro ⟨entry, he, rfl⟩
    exact ⟨entry, he, beq_self_eq_true _⟩

theorem SameKeys.contains (h : SameKeys m m') (name : String) :
    m.contains name = m'.contains name := by
  rw [Bool.eq_iff_iff, contains_iff, contains_iff, h]

theorem keys_insert (m : TokenMap) (name identifiers : String) :
    (m.insert name identifiers).keys = if name ∈ m.keys then m.keys else m.keys ++ [name] := by
  unfold insert
  split
  · next h => rw [if_pos (contains_iff.1 h)]
  · next h =>
    rw [if_neg fun hm => h (contains_iff.2 hm)]
    simp [keys]

theorem keys_change (name : String) (f : String → String) (entries : List (String × String)) :
    (change name f entries).map Prod.fst =
      if name ∈ entries.map Prod.fst then entries.map Prod.fst
      else entries.map Prod.fst ++ [name] := by
  induction entries with
  | nil => rfl
  | cons entry entries ih =>
    obtain ⟨key, value⟩ := entry
    rw [change]
    split
    · next h => simp [h]
    · next h =>
      rw [List.map_cons, ih, List.map_cons]
      by_cases hm : name ∈ entries.map Prod.fst
      · rw [if_pos hm, if_pos (List.mem_cons_of_mem _ hm)]
      · have hn : name ∉ key :: entries.map Prod.fst := by
          rw [List.mem_cons, not_or]
          exact ⟨Ne.symm h, hm⟩
        rw [if_neg hm, if_neg hn, List.cons_append]

theorem keys_compose (m : TokenMap) (name : String) (identifiers : List String) :
    (m.compose name identifiers).keys = if name ∈ m.keys then m.keys else m.keys ++ [name] :=
  keys_change ..

theorem nodup_keys_append (hm : m.keys.Nodup) (name : String) :
    (if name ∈ m.keys then m.keys else m.keys ++ [name]).Nodup := by
  split
  · exact hm
  · next hn => exact hm.append (List.nodup_singleton _) (by simpa using hn)

theorem SameKeys.insert (h : SameKeys m m') (name identifiers identifiers' : String) :
    SameKeys (m.insert name identifiers) (m'.insert name identifiers') := by
  rw [SameKeys, keys_insert, keys_insert, h]

theorem SameKeys.compose (h : SameKeys m m') (name : String) (identifiers identifiers' : List String) :
    SameKeys (m.compose name identifiers) (m'.compose name identifiers') := by
  rw [SameKeys, keys_compose, keys_compose, h]

theorem SameKeys.foldl_insert (h : SameKeys m m') (f g : String → String) (names : List String) :
    SameKeys (names.foldl (fun tokens name => tokens.insert (Identifier.unescape name) (f name)) m)
      (names.foldl (fun tokens name => tokens.insert (Identifier.unescape name) (g name)) m') := by
  induction names generalizing m m' with
  | nil => exact h
  | cons name names ih => exact ih (h.insert _ _ _)

theorem congruence_sameKeys : Congruence SameKeys where
  refl _ := rfl
  trans := Eq.trans
  missing names h := by
    unfold missing?
    congr 1
    funext token
    rw [h.contains]
  extend name identifiers h := h.compose name identifiers identifiers
  compose name h _ _ _ := h.compose name _ _

end TokenMap

theorem Library.Coherent.uniform_sameKeys {lib : Library} {files : Set Path}
    (hc : lib.Coherent files) : lib.Uniform files TokenMap.SameKeys where
  toCoherent := hc
  congruence := TokenMap.congruence_sameKeys
  declared _ _ _ _ := TokenMap.SameKeys.foldl_insert rfl _ _ _

theorem Task.sameKeys_declare {σ : Type} (h : Host σ) (f : String → String) (p : Path)
    (names : List String) {m m' : TokenMap} (hm : m.SameKeys m') (s : σ) :
    (declare h p names m s).1.SameKeys
      (names.foldl (fun tokens name => tokens.insert (Identifier.unescape name) (f name)) m') := by
  induction names generalizing m m' s with
  | nil => exact hm
  | cons name names ih =>
    rw [declare, List.foldl_cons]
    dsimp only
    split
    · next hc =>
      rw [TokenMap.insert, if_pos (hm.contains _ ▸ hc)]
      exact ih hm s
    · exact ih (hm.insert _ _ _) _

theorem Session.host_serves_keys (read : Path → Except Error Stylesheet) (n : Naming)
    (name? : Path → Option String) :
    (host read n name?).Serves (n.library read name?) TokenMap.SameKeys fun _ => True where
  parse p _ := parse_eq read p _
  parse_keeps _ _ := trivial
  declare p names _ := Task.sameKeys_declare _ _ p names rfl _
  declare_keeps _ _ _ := trivial
  released_keeps _ _ := trivial

end CssModules
