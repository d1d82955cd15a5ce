import CssModules.Proofs.Path.Join

namespace CssModules.Path

variable {p q root : Path}

theorem stepsBetween?_eq (target : List Component) {base : List Component}
    (hbase : .current ∉ base) :
    ∃ shared up down, base = shared ++ up ∧ target = shared ++ down ∧
      stepsBetween? target base =
        if down ≠ [] ∧ up.head? = some .parent then Option.none
        else some (up.map (fun _ => .parent) ++ down) := by
  induction target generalizing base with
  | nil =>
    refine ⟨[], base, [], rfl, rfl, ?_⟩
    cases base <;> simp [stepsBetween?, divergence?]
  | cons a target ih =>
    cases base with
    | nil => exact ⟨[], [], a :: target, rfl, rfl, rfl⟩
    | cons b base =>
      by_cases hab : a = b
      · subst hab
        obtain ⟨shared, up, down, rfl, rfl, hs⟩ := ih fun hm => hbase (List.mem_cons_of_mem _ hm)
        exact ⟨a :: shared, up, down, rfl, rfl, by rw [stepsBetween?, if_pos rfl, hs]⟩
      · refine ⟨[], b :: base, a :: target, rfl, rfl, ?_⟩
        rw [stepsBetween?, if_neg hab]
        cases b with
        | current => exact absurd (List.mem_cons_self ..) hbase
        | root => simp [divergence?]
        | parent => simp [divergence?]
        | name s => simp [divergence?]

theorem stepsBetween?_append (base steps : List Component) :
    stepsBetween? (base ++ steps) base = some steps := by
  induction base with
  | nil => cases steps <;> rfl
  | cons b base ih => rw [List.cons_append, stepsBetween?, if_pos rfl, ih]

theorem pushLexical_cases (stack : List Component) (c : Component) :
    pushLexical stack c = c :: stack ∨ (pushLexical stack c).length ≤ stack.length := by
  unfold pushLexical
  split
  · exact .inr (Nat.le_refl _)
  · split
    · exact .inl rfl
    · exact .inl rfl
    · exact .inr (Nat.le_succ _)
  · exact .inl rfl

theorem length_foldl_pushLexical_le (cs stack : List Component) :
    (cs.foldl pushLexical stack).length ≤ stack.length + cs.length := by
  induction cs generalizing stack with
  | nil => exact Nat.le_refl _
  | cons c cs ih =>
    have hcs := ih (pushLexical stack c)
    have hc : (pushLexical stack c).length ≤ stack.length + 1 := by
      rcases pushLexical_cases stack c with hc | hc
      · rw [hc, List.length_cons]
      · exact Nat.le_succ_of_le hc
    rw [List.foldl_cons, List.length_cons]
    omega

def Settled (cs : List Component) : Prop := cs.foldl pushLexical [] = cs.reverse

theorem Settled.of_append {cs ds : List Component} (h : Settled (cs ++ ds)) : Settled cs := by
  induction ds using List.reverseRecOn with
  | nil => rwa [List.append_nil] at h
  | append_singleton ds d ih =>
    apply ih
    rw [Settled, ← List.append_assoc, List.foldl_append, List.foldl_cons, List.foldl_nil,
      List.reverse_append, List.reverse_singleton, List.singleton_append] at h
    rcases pushLexical_cases ((cs ++ ds).foldl pushLexical []) d with hd | hd
    · rw [hd] at h
      exact (List.cons.inj h).2
    · have hle := length_foldl_pushLexical_le (cs ++ ds) []
      rw [h, List.length_cons, List.length_reverse] at hd
      rw [List.length_nil] at hle
      omega

theorem exists_foldl_pushLexical_root {steps : List Component} (h : ∀ c ∈ steps, c.IsStep)
    {stack : List Component} (hstack : ∀ c ∈ stack, c.IsStep) :
    ∃ stack', (∀ c ∈ stack', c.IsStep) ∧
      steps.foldl pushLexical (stack ++ [.root]) = stack' ++ [.root] := by
  induction steps generalizing stack with
  | nil => exact ⟨stack, hstack, rfl⟩
  | cons c steps ih =>
    obtain ⟨hc, hsteps⟩ := List.forall_mem_cons.1 h
    rw [List.foldl_cons]
    cases c with
    | root => exact absurd rfl hc.ne_root
    | current => exact absurd rfl hc.ne_current
    | parent =>
      cases stack with
      | nil =>
        have htop : ∀ c ∈ [Component.parent], c.IsStep := List.forall_mem_singleton.2 hc
        exact ih hsteps htop
      | cons d stack =>
        have hpop : pushLexical (d :: stack ++ [.root]) .parent = stack ++ [.root] := by
          cases stack <;> simp [pushLexical]
        rw [hpop]
        exact ih hsteps (List.forall_mem_cons.1 hstack).2
    | name s =>
      have htop : ∀ c ∈ .name s :: stack, c.IsStep := List.forall_mem_cons.2 ⟨hc, hstack⟩
      exact ih hsteps htop

theorem components_normalize (h : p.isAbsolute = true) :
    p.normalize.components = (p.components.foldl pushLexical []).reverse := by
  obtain ⟨steps, hsteps, hstep⟩ := exists_steps h
  have hempty : ∀ c ∈ ([] : List Component), c.IsStep := List.forall_mem_nil _
  obtain ⟨stack, hstack, hfold⟩ := exists_foldl_pushLexical_root hstep hempty
  have hroot : p.components.foldl pushLexical [] = stack ++ [.root] := by
    rw [hsteps]
    exact hfold
  rw [normalize, hroot, List.reverse_append, List.reverse_singleton, List.singleton_append]
  exact components_ofComponents_root fun c hc => hstack c (List.mem_reverse.1 hc)

/-- Whether a path is absolute and no step of it takes back another. -/
def Normalized (p : Path) : Prop := p.isAbsolute = true ∧ p.normalize.location = p.location

instance (p : Path) : Decidable p.Normalized :=
  inferInstanceAs (Decidable (p.isAbsolute = true ∧ p.normalize.location = p.location))

theorem Normalized.settled (h : p.Normalized) : Settled p.components := by
  have hc : p.normalize.components = p.components := h.2
  rw [components_normalize h.1] at hc
  rw [Settled, ← hc, List.reverse_reverse, hc]

theorem isAbsolute_ofComponents {cs : List Component} (h : ∀ c ∈ cs, c.IsStep) :
    (ofComponents cs).isAbsolute = false := by
  rw [isAbsolute_eq, components_ofComponents h, beq_eq_false_iff_ne]
  exact fun he => (h _ (List.mem_of_mem_head? he)).ne_root rfl

theorem isStep_way (up : List Component) {down : List Component} (h : ∀ c ∈ down, c.IsStep) :
    ∀ c ∈ up.map (fun _ => Component.parent) ++ down, c.IsStep := by
  intro c hc
  rcases List.mem_append.1 hc with hc | hc
  · obtain ⟨_, _, rfl⟩ := List.mem_map.1 hc
    exact Component.isStep_parent
  · exact h c hc

theorem exists_way (hp : p.isAbsolute = true) (hroot : root.isAbsolute = true) :
    ∃ shared up down, root.components = .root :: (shared ++ up) ∧
      p.components = .root :: (shared ++ down) ∧ (∀ c ∈ down, c.IsStep) ∧
      stepsBetween? p.components root.components =
        if down ≠ [] ∧ up.head? = some .parent then Option.none
        else some (up.map (fun _ => .parent) ++ down) := by
  obtain ⟨ts, ht, hts⟩ := exists_steps hp
  obtain ⟨bs, hb, hbs⟩ := exists_steps hroot
  obtain ⟨shared, up, down, rfl, rfl, hs⟩ :=
    stepsBetween?_eq ts fun hm => (hbs _ hm).ne_current rfl
  refine ⟨shared, up, down, hb, ht, fun c hc => hts c (List.mem_append_right _ hc), ?_⟩
  rw [ht, hb, stepsBetween?, if_pos rfl, hs]

/-- Seen from an absolute directory a path is the way up and down, or stands for itself. -/
theorem relativeTo_cases (hp : p.isAbsolute = true) (hroot : root.isAbsolute = true) :
    (p.relativeTo root = p.text ∧ .parent ∈ root.components) ∨
      ∃ shared up down, root.components = .root :: (shared ++ up) ∧
        p.components = .root :: (shared ++ down) ∧ (∀ c ∈ down, c.IsStep) ∧
        p.relativeTo root = (ofComponents (up.map (fun _ => .parent) ++ down)).text := by
  obtain ⟨shared, up, down, hb, ht, hdown, hs⟩ := exists_way hp hroot
  rw [relativeTo, hp, hroot, bne_self_eq_false, if_neg Bool.false_ne_true, hs]
  by_cases hnone : down ≠ [] ∧ up.head? = some .parent
  · rw [if_pos hnone, hb]
    exact .inl ⟨rfl, List.mem_cons_of_mem _
      (List.mem_append_right _ (List.mem_of_mem_head? hnone.2))⟩
  · rw [if_neg hnone]
    exact .inr ⟨shared, up, down, hb, ht, hdown, rfl⟩

theorem relativeTo_join (p : Path) {r : Path} (h : r.isAbsolute = false)
    (hdot : .current ∉ r.components) :
    (p.join r).relativeTo p = (ofComponents r.components).text := by
  have hc := components_join p h hdot
  have habs : (p.join r).isAbsolute = p.isAbsolute := by
    rw [isAbsolute_eq, isAbsolute_eq, hc]
    cases hp : p.components with
    | nil =>
      rw [List.nil_append, ← isAbsolute_eq, h]
      rfl
    | cons c cs => rfl
  rw [relativeTo, habs, bne_self_eq_false, if_neg Bool.false_ne_true, hc, stepsBetween?_append]

end CssModules.Path
