import CssModules.Proofs.Path.Relative

/-!
What a path denotes when `..` is read lexically, and what normalizing keeps of it. Two steps above
the start take back each other, so a path that climbs twice above its start comes to denote another
place.
-/

namespace CssModules.Path

/-- Where a step leads from a directory. A directory is the names on the way to it, its own first;
above the root there is only the root. -/
def Component.walk (dir : List String) : Component → List String
  | .root => []
  | .current => dir
  | .parent => dir.tail
  | .name s => s :: dir

/-- The place that a path denotes, seen from a directory. -/
def denotes (p : Path) (dir : List String) : List String := p.components.foldl Component.walk dir

def climbsFrom : (depth : Nat) → List Component → Nat
  | _, [] => 0
  | _, .root :: cs => climbsFrom 0 cs
  | depth, .current :: cs => climbsFrom depth cs
  | 0, .parent :: cs => climbsFrom 0 cs + 1
  | depth + 1, .parent :: cs => climbsFrom depth cs
  | depth, .name _ :: cs => climbsFrom (depth + 1) cs

/-- How many steps of a path lead above where it starts. -/
def climbs (p : Path) : Nat := climbsFrom 0 p.components

variable {p q : Path}

section Steps

variable {cs : List Component}

theorem foldl_walk_append (h : .root ∉ cs) (names dir : List String) :
    cs.foldl Component.walk (names ++ dir) =
      cs.foldl Component.walk names ++ dir.drop (climbsFrom names.length cs) := by
  induction cs generalizing names dir with
  | nil => simp [climbsFrom]
  | cons c cs ih =>
    obtain ⟨hc, hcs⟩ := not_or.1 (List.mem_cons.not.1 h)
    simp only [List.foldl_cons]
    cases c with
    | root => exact absurd rfl hc
    | current => exact ih hcs names dir
    | name s => exact ih hcs (s :: names) dir
    | parent =>
      cases names with
      | nil =>
        have hdir := ih hcs [] dir.tail
        simpa [Component.walk, climbsFrom] using hdir
      | cons s names => exact ih hcs names dir

theorem foldl_pushLexical_names (h : .root ∉ cs) {bottom : List Component}
    (hbottom : bottom = [] ∨ bottom = [.root]) (names : List String) (n : Nat) :
    cs.foldl pushLexical (names.map .name ++ (List.replicate (n % 2) .parent ++ bottom)) =
      (cs.foldl Component.walk names).map .name ++
        (List.replicate ((n + climbsFrom names.length cs) % 2) .parent ++ bottom) := by
  -- The names are those that `walk` has; below them stands a `..` or none, which another `..` that
  -- has no name to take back puts there or takes away.
  induction cs generalizing names n with
  | nil => simp [climbsFrom]
  | cons c cs ih =>
    obtain ⟨hc, hcs⟩ := not_or.1 (List.mem_cons.not.1 h)
    simp only [List.foldl_cons]
    cases c with
    | root => exact absurd rfl hc
    | current => exact ih hcs names n
    | name s => exact ih hcs (s :: names) n
    | parent =>
      cases names with
      | nil =>
        have hpush : pushLexical (List.replicate (n % 2) .parent ++ bottom) .parent =
            List.replicate ((n + 1) % 2) .parent ++ bottom := by
          rcases Nat.mod_two_eq_zero_or_one n with hn | hn
          · have hn' : (n + 1) % 2 = 1 := by omega
            rw [hn, hn']
            rcases hbottom with rfl | rfl <;> rfl
          · have hn' : (n + 1) % 2 = 0 := by omega
            rw [hn, hn']
            rfl
        have hcs' := ih hcs [] (n + 1)
        simp only [List.map_nil, List.nil_append] at hcs' ⊢
        rw [hpush, hcs']
        simp [climbsFrom, Component.walk, Nat.add_assoc, Nat.add_comm 1]
      | cons s names =>
        have hpop : pushLexical ((s :: names).map .name ++
            (List.replicate (n % 2) .parent ++ bottom)) .parent =
              names.map .name ++ (List.replicate (n % 2) .parent ++ bottom) := by
          simp [pushLexical]
        rw [hpop, ih hcs names n]
        rfl

end Steps

theorem isStep_or_of_mem {c : Component} (h : c ∈ p.components) :
    c = .root ∨ c = .current ∨ c.IsStep := by
  rcases List.mem_append.1 h with h | h
  · cases hlead : p.split.1 with
    | root =>
      rw [hlead] at h
      exact .inl (List.mem_singleton.1 h)
    | current =>
      rw [hlead] at h
      exact .inr (.inl (List.mem_singleton.1 h))
    | none =>
      rw [hlead] at h
      cases h
  · exact .inr (.inr (isStep_of_mem h))

theorem root_not_mem (h : p.isAbsolute = false) : .root ∉ p.components := by
  intro hm
  rcases List.mem_append.1 hm with hm | hm
  · cases hlead : p.split.1 with
    | root =>
      rw [isAbsolute_eq, components, hlead] at h
      cases h
    | current =>
      rw [hlead] at hm
      cases List.mem_singleton.1 hm
    | none =>
      rw [hlead] at hm
      cases hm
  · exact (isStep_of_mem hm).ne_root rfl

theorem isStep_of_mem_denotes (p : Path) {s : String} (h : s ∈ p.denotes []) :
    (Component.name s).IsStep := by
  have key (cs : List Component) : ∀ names : List String,
      s ∈ cs.foldl Component.walk names → s ∈ names ∨ .name s ∈ cs := by
    induction cs with
    | nil => exact fun _ hs => .inl hs
    | cons c cs ih =>
      intro names hs
      rcases ih _ hs with hs | hs
      · cases c with
        | root => cases hs
        | current => exact .inl hs
        | parent => exact .inl (List.mem_of_mem_tail hs)
        | name t =>
          rcases List.mem_cons.1 hs with rfl | hs
          · exact .inr (List.mem_cons_self ..)
          · exact .inl hs
      · exact .inr (List.mem_cons_of_mem _ hs)
  rcases key _ _ h with hs | hs
  · cases hs
  · rcases isStep_or_of_mem hs with he | he | he
    · cases he
    · cases he
    · exact he

def start (p : Path) : List Component := if p.isAbsolute then [.root] else []

theorem foldl_pushLexical_components (p : Path) : p.components.foldl pushLexical [] =
    (p.denotes []).map .name ++ (List.replicate (p.climbs % 2) .parent ++ p.start) := by
  cases habs : p.isAbsolute with
  | false =>
    have hfold := foldl_pushLexical_names (root_not_mem habs) (.inl rfl) [] 0
    simp only [Nat.zero_add, List.length_nil] at hfold
    rw [start, habs]
    exact hfold
  | true =>
    obtain ⟨steps, hsteps, hstep⟩ := exists_steps habs
    have hfold := foldl_pushLexical_names (fun hm => (hstep _ hm).ne_root rfl) (.inr rfl) [] 0
    simp only [Nat.zero_add, List.length_nil] at hfold
    rw [start, habs, climbs, denotes, hsteps]
    exact hfold

/-- What is left of a path: the names of the place that it denotes, and one `..` in front of them if
the path climbs above its start an odd number of times. -/
theorem normalize_eq (p : Path) : p.normalize = ofComponents
    (p.start ++ (List.replicate (p.climbs % 2) .parent ++ (p.denotes []).reverse.map .name)) := by
  have hstart : p.start.reverse = p.start := by
    rw [start]
    split <;> rfl
  rw [normalize, foldl_pushLexical_components]
  simp [hstart]

theorem components_normalize_eq (p : Path) : p.normalize.components =
    p.start ++ (List.replicate (p.climbs % 2) .parent ++ (p.denotes []).reverse.map .name) := by
  have hsteps : ∀ c ∈ List.replicate (p.climbs % 2) Component.parent ++
      (p.denotes []).reverse.map .name, c.IsStep := by
    intro c hc
    rcases List.mem_append.1 hc with hc | hc
    · rw [List.eq_of_mem_replicate hc]
      exact Component.isStep_parent
    · obtain ⟨s, hs, rfl⟩ := List.mem_map.1 hc
      exact isStep_of_mem_denotes p (List.mem_reverse.1 hs)
  rw [normalize_eq, start]
  split
  · exact components_ofComponents_root hsteps
  · exact components_ofComponents hsteps

theorem normalize_eq_iff : p.normalize = q.normalize ↔
    p.normalize.components = q.normalize.components := by
  have hself (p : Path) : p.normalize = ofComponents p.normalize.components := by
    rw [components_normalize_eq, ← normalize_eq]
  constructor
  · exact congrArg components
  · intro h
    rw [hself p, hself q, h]

theorem isAbsolute_normalize (p : Path) : p.normalize.isAbsolute = p.isAbsolute := by
  rw [isAbsolute_eq, components_normalize_eq, start]
  split
  · next h => simp [h]
  · next h =>
    rw [List.nil_append, Bool.eq_false_iff.2 h, beq_eq_false_iff_ne]
    intro hroot
    have hmem := List.mem_of_mem_head? hroot
    simp at hmem

section Denotes

theorem denotes_of_isAbsolute (h : p.isAbsolute = true) (dir : List String) :
    p.denotes dir = p.denotes [] := by
  obtain ⟨steps, hsteps, -⟩ := exists_steps h
  rw [denotes, denotes, hsteps]
  rfl

theorem denotes_of_relative (h : p.isAbsolute = false) (dir : List String) :
    p.denotes dir = p.denotes [] ++ dir.drop p.climbs :=
  foldl_walk_append (root_not_mem h) [] dir

theorem foldl_walk_parents (n : Nat) (dir : List String) :
    (List.replicate n Component.parent).foldl Component.walk dir = dir.drop n := by
  induction n generalizing dir with
  | zero => rfl
  | succ n ih =>
    rw [List.replicate_succ, List.foldl_cons, ih, Component.walk, List.drop_tail]

theorem foldl_walk_names (names dir : List String) :
    (names.reverse.map Component.name).foldl Component.walk dir = names ++ dir := by
  induction names with
  | nil => rfl
  | cons s names ih =>
    rw [List.reverse_cons, List.map_append, List.foldl_append, ih]
    rfl

/-- Of the steps above its start a normalized path has every second one lost. -/
theorem denotes_normalize (p : Path) (dir : List String) : p.normalize.denotes dir =
    p.denotes [] ++ if p.isAbsolute then [] else dir.drop (p.climbs % 2) := by
  rw [denotes, components_normalize_eq, start]
  split
  · rw [List.foldl_append, List.foldl_append, foldl_walk_parents, foldl_walk_names,
      List.foldl_cons, List.foldl_nil, Component.walk, List.drop_nil]
  · rw [List.nil_append, List.foldl_append, foldl_walk_parents, foldl_walk_names]

theorem denotes_normalize_iff : (∀ dir, p.normalize.denotes dir = p.denotes dir) ↔
    p.isAbsolute = true ∨ p.climbs ≤ 1 := by
  cases habs : p.isAbsolute with
  | true =>
    refine iff_of_true (fun dir => ?_) (.inl rfl)
    rw [denotes_normalize, habs, if_pos rfl, List.append_nil, denotes_of_isAbsolute habs dir]
  | false =>
    have hdir (dir : List String) : p.normalize.denotes dir = p.denotes dir ↔
        dir.drop (p.climbs % 2) = dir.drop p.climbs := by
      rw [denotes_normalize, denotes_of_relative habs dir, habs, if_neg Bool.false_ne_true,
        List.append_cancel_left_eq]
    simp only [hdir, Bool.false_eq_true, false_or]
    constructor
    · intro h
      have hlength := congrArg List.length (h (List.replicate p.climbs ""))
      rw [List.length_drop, List.length_drop, List.length_replicate] at hlength
      omega
    · intro h dir
      rw [Nat.mod_eq_of_lt (Nat.lt_succ_of_le h)]

theorem denotes_join (p q : Path) (dir : List String) :
    (p.join q).denotes dir = q.denotes (p.denotes dir) := by
  cases hq : q.isAbsolute with
  | true =>
    rw [join, if_pos hq, denotes_of_isAbsolute hq, denotes_of_isAbsolute hq (p.denotes dir)]
  | false =>
    by_cases hp : p.text.toList = []
    · rw [eq_empty hp, empty_join hq]
      rfl
    · rw [denotes, components_join_of_ne hp hq, List.foldl_append]
      rcases components_eq_or hq with hc | hc <;>
      · rw [denotes, hc]
        rfl

end Denotes

theorem count_parent_normalize (p : Path) :
    p.normalize.components.count .parent = p.climbs % 2 := by
  have hstart : p.start.count .parent = 0 := by
    rw [start]
    split <;> rfl
  have hnames : ((p.denotes []).reverse.map Component.name).count .parent = 0 := by
    simp [List.count_eq_zero]
  rw [components_normalize_eq, List.count_append, List.count_append, hstart, hnames,
    List.count_replicate_self, Nat.zero_add, Nat.add_zero]

theorem current_not_mem_normalize (p : Path) : .current ∉ p.normalize.components := by
  rw [components_normalize_eq, start]
  split <;> simp

/-- Whether a path has no `.`, and no `..` but in a run at the start, which only a path that is not
absolute has. -/
def Canonical (p : Path) : Prop :=
  ∃ n names, p.components = p.start ++ (List.replicate n .parent ++ List.map .name names) ∧
    (p.isAbsolute = true → n = 0)

theorem canonical_normalize_iff :
    p.normalize.Canonical ↔ (p.isAbsolute = true → p.climbs % 2 = 0) := by
  have hstart : p.normalize.start = p.start := by rw [start, start, isAbsolute_normalize]
  constructor
  · rintro ⟨n, names, hc, hn⟩ habs
    rw [isAbsolute_normalize] at hn
    rw [← count_parent_normalize, hc, hstart, hn habs, start, habs, List.count_eq_zero]
    simp
  · intro h
    refine ⟨p.climbs % 2, (p.denotes []).reverse, ?_, ?_⟩
    · rw [components_normalize_eq, hstart]
    · rwa [isAbsolute_normalize]

theorem normalize_eq_iff_denotes (hp : p.isAbsolute = true) (hq : q.isAbsolute = true) :
    p.normalize = q.normalize ↔
      p.denotes [] = q.denotes [] ∧ p.climbs % 2 = q.climbs % 2 := by
  constructor
  · intro h
    constructor
    · have hdenotes := congrArg (denotes · []) h
      simpa [denotes_normalize, hp, hq] using hdenotes
    · rw [← count_parent_normalize, ← count_parent_normalize, h]
  · rintro ⟨hdenotes, hclimbs⟩
    rw [normalize_eq, normalize_eq, start, start, hp, hq, hclimbs, hdenotes]

section Absolute

theorem canonical_of_parent_not_mem (h : p.isAbsolute = true) (hparent : .parent ∉ p.components) :
    p.Canonical := by
  obtain ⟨steps, hsteps, hstep⟩ := exists_steps h
  have hnames : (steps.map Component.text).map Component.name = steps := by
    rw [List.map_map]
    refine (List.map_congr_left ?_).trans (List.map_id steps)
    intro c hc
    cases c with
    | root => exact absurd rfl (hstep _ hc).ne_root
    | current => exact absurd rfl (hstep _ hc).ne_current
    | parent =>
      rw [hsteps] at hparent
      exact absurd (List.mem_cons_of_mem _ hc) hparent
    | name s => rfl
  refine ⟨0, steps.map Component.text, ?_, fun _ => rfl⟩
  rw [hnames, start, h, hsteps]
  rfl

theorem Canonical.location_eq (hc : p.Canonical) (h : p.isAbsolute = true) :
    p.location = .root :: (p.denotes []).reverse.map .name := by
  obtain ⟨n, names, hcomponents, hn⟩ := hc
  rw [hn h, start, h] at hcomponents
  have hwalk := foldl_walk_names names.reverse []
  rw [List.reverse_reverse, List.append_nil] at hwalk
  have hdenotes : p.denotes [] = names.reverse := by
    rw [denotes, hcomponents]
    exact hwalk
  rw [location, hcomponents, hdenotes, List.reverse_reverse]
  rfl

theorem Canonical.parent_not_mem (hc : p.Canonical) (h : p.isAbsolute = true) :
    .parent ∉ p.components := by
  have hlocation : p.components = _ := hc.location_eq h
  rw [hlocation]
  simp

theorem Canonical.location_congr (hp : p.Canonical) (hpa : p.isAbsolute = true)
    (hq : q.Canonical) (hqa : q.isAbsolute = true) (h : p.denotes [] = q.denotes []) :
    p.location = q.location := by
  rw [hp.location_eq hpa, hq.location_eq hqa, h]

theorem length_foldl_walk_le (cs : List Component) (dir : List String) :
    (cs.foldl Component.walk dir).length + cs.count .parent ≤ dir.length + cs.length := by
  induction cs generalizing dir with
  | nil => exact Nat.le_refl _
  | cons c cs ih =>
    have hcs := ih (c.walk dir)
    rw [List.foldl_cons, List.count_cons, List.length_cons]
    cases c with
    | root => simp [Component.walk] at hcs ⊢; omega
    | current => simp [Component.walk] at hcs ⊢; omega
    | parent => simp [Component.walk] at hcs ⊢; omega
    | name s => simp [Component.walk] at hcs ⊢; omega

theorem parent_not_mem_normalize (h : p.climbs = 0) : .parent ∉ p.normalize.components := by
  rw [← List.count_eq_zero, count_parent_normalize, h]

theorem length_normalize_lt (h : p.isAbsolute = true) (hclimbs : p.climbs = 0)
    (hparent : .parent ∈ p.components) :
    p.normalize.components.length < p.components.length := by
  obtain ⟨steps, hsteps, hstep⟩ := exists_steps h
  have hle := length_foldl_walk_le steps []
  have hcount : 0 < steps.count .parent := by
    rw [hsteps] at hparent
    exact List.count_pos_iff.2 (List.mem_of_ne_of_mem (by decide) hparent)
  have hdenotes : p.denotes [] = steps.foldl Component.walk [] := by
    rw [denotes, hsteps]
    rfl
  rw [components_normalize_eq, hclimbs, hdenotes, start, h, hsteps]
  simp at hle ⊢
  omega

/-- Seen from a directory that is spelled with steps to a parent, no path looks as it does from the
place that the directory denotes. -/
theorem relativeTo_normalize_ne {root : Path} (hp : p.isAbsolute = true)
    (hdown : .parent ∉ p.components) (hroot : root.isAbsolute = true) (hclimbs : root.climbs = 0)
    (hparent : .parent ∈ root.components) : p.relativeTo root ≠ p.relativeTo root.normalize := by
  intro he
  have hnormal : root.normalize.isAbsolute = true := by rw [isAbsolute_normalize, hroot]
  rcases relativeTo_cases hp hnormal with ⟨-, hm⟩ | ⟨shared', up', down', hb', ht', hdown', hs'⟩
  · exact parent_not_mem_normalize hclimbs hm
  · have hway' := isStep_way up' hdown'
    rcases relativeTo_cases hp hroot with ⟨hs, -⟩ | ⟨shared, up, down, hb, ht, hdown'', hs⟩
    · -- Without a way the path stands for itself, and a way is never absolute.
      have habs := isAbsolute_ofComponents hway'
      rw [isAbsolute, ← hs', ← he, hs, ← isAbsolute, hp] at habs
      cases habs
    · have hway := isStep_way up hdown''
      have hpath : ofComponents (up.map (fun _ => .parent) ++ down) =
          ofComponents (up'.map (fun _ => .parent) ++ down') := by
        rw [hs, hs'] at he
        exact congrArg Path.mk he
      have hsteps := congrArg components hpath
      rw [components_ofComponents hway, components_ofComponents hway'] at hsteps
      have hnone {shared down : List Component} (ht : p.components = .root :: (shared ++ down)) :
          down.count .parent = 0 := by
        rw [ht] at hdown
        exact List.count_eq_zero.2 fun hm =>
          hdown (List.mem_cons_of_mem _ (List.mem_append_right _ hm))
      have hup : up.length = up'.length := by
        have hcount := congrArg (List.count Component.parent) hsteps
        simpa [List.map_const', hnone ht, hnone ht'] using hcount
      have hsame := (List.append_inj hsteps (by rw [List.length_map, List.length_map, hup])).2
      have hlength := length_normalize_lt hroot hclimbs hparent
      have hshared := congrArg List.length (ht.symm.trans ht')
      rw [hb, hb'] at hlength
      rw [hsame] at hshared
      simp only [List.length_cons, List.length_append] at hshared hlength
      omega

end Absolute

end CssModules.Path
