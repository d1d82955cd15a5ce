namespace CssModules.Text

def splitWhere (isSeparator : Char → Bool) : List Char → List (List Char)
  | [] => [[]]
  | c :: cs =>
    if isSeparator c then [] :: splitWhere isSeparator cs
    else match splitWhere isSeparator cs with
      | [] => [[c]]
      | p :: ps => (c :: p) :: ps

def splitAt (sep : Char) (cs : List Char) : List (List Char) := splitWhere (· == sep) cs

def runs (isSeparator : Char → Bool) (cs : List Char) : List (List Char) :=
  (splitWhere isSeparator cs).filter (!·.isEmpty)

def joinWith (sep : Char) : List (List Char) → List Char
  | [] => []
  | [p] => p
  | p :: q :: ps => p ++ sep :: joinWith sep (q :: ps)

theorem splitWhere_ne_nil (f : Char → Bool) (cs : List Char) : splitWhere f cs ≠ [] := by
  cases cs with
  | nil => simp [splitWhere]
  | cons c cs =>
    simp only [splitWhere]
    split
    · simp
    · split <;> simp

theorem joinWith_cons_cons (sep c : Char) (p : List Char) (ps : List (List Char)) :
    joinWith sep ((c :: p) :: ps) = c :: joinWith sep (p :: ps) := by
  cases ps <;> rfl

theorem not_mem_of_mem_splitAt {sep : Char} {p cs : List Char} (h : p ∈ splitAt sep cs) :
    sep ∉ p := by
  unfold splitAt at h
  induction cs generalizing p with
  | nil => simp_all [splitWhere]
  | cons c cs ih =>
    simp only [splitWhere] at h
    split at h
    · rcases List.mem_cons.1 h with rfl | h
      · exact List.not_mem_nil
      · exact ih h
    · next hc =>
      split at h
      · next hn => exact absurd hn (splitWhere_ne_nil _ cs)
      · next q qs hq =>
        rw [hq] at ih
        rcases List.mem_cons.1 h with rfl | h
        · have hs : sep ∉ q := ih (List.mem_cons_self ..)
          simp only [List.mem_cons, not_or]
          exact ⟨fun he => hc (by simp [he]), hs⟩
        · exact ih (List.mem_cons_of_mem _ h)

theorem splitAt_of_not_mem {sep : Char} {cs : List Char} (h : sep ∉ cs) :
    splitAt sep cs = [cs] := by
  unfold splitAt
  induction cs with
  | nil => rfl
  | cons c cs ih =>
    simp only [List.mem_cons, not_or] at h
    simp [splitWhere, Ne.symm h.1, ih h.2]

theorem splitAt_append {sep : Char} {p : List Char} (cs : List Char) (h : sep ∉ p) :
    splitAt sep (p ++ sep :: cs) = p :: splitAt sep cs := by
  unfold splitAt
  induction p with
  | nil => simp [splitWhere]
  | cons c p ih =>
    simp only [List.mem_cons, not_or] at h
    simp [splitWhere, Ne.symm h.1, ih h.2]

theorem splitAt_joinWith {sep : Char} {ps : List (List Char)} (hne : ps ≠ [])
    (h : ∀ p ∈ ps, sep ∉ p) : splitAt sep (joinWith sep ps) = ps := by
  induction ps with
  | nil => exact absurd rfl hne
  | cons p ps ih =>
    cases ps with
    | nil => exact splitAt_of_not_mem (h p (by simp))
    | cons q qs =>
      rw [joinWith, splitAt_append _ (h p (by simp)),
        ih (by simp) (fun r hr => h r (List.mem_cons_of_mem _ hr))]

theorem append_cons_inj {sep : Char} {cs ds es fs : List Char} (hc : sep ∉ cs) (hd : sep ∉ ds) :
    cs ++ sep :: es = ds ++ sep :: fs ↔ cs = ds ∧ es = fs := by
  constructor
  · intro h
    induction cs generalizing ds with
    | nil =>
      cases ds with
      | nil => exact ⟨rfl, (List.cons.inj h).2⟩
      | cons d ds =>
        obtain ⟨rfl, -⟩ := List.cons.inj h
        exact absurd (List.mem_cons_self ..) hd
    | cons c cs ih =>
      cases ds with
      | nil =>
        obtain ⟨rfl, -⟩ := List.cons.inj h
        exact absurd (List.mem_cons_self ..) hc
      | cons d ds =>
        obtain ⟨rfl, htail⟩ := List.cons.inj h
        obtain ⟨rfl, hf⟩ := ih (fun hm => hc (List.mem_cons_of_mem _ hm))
          (fun hm => hd (List.mem_cons_of_mem _ hm)) htail
        exact ⟨rfl, hf⟩
  · rintro ⟨rfl, rfl⟩
    rfl

end CssModules.Text
