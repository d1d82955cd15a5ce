import CssModules.Naming.Search
import CssModules.Proofs.Naming.Lookup

namespace CssModules

namespace Package

variable {name? : Path → Option String} {memo : Memo} {p : Path}

theorem nearest_append {passed : List Path} (h : ∀ d ∈ passed, name? d = none) (ahead : List Path) :
    nearest name? (passed ++ ahead) = nearest name? ahead := by
  induction passed with
  | nil => rfl
  | cons d passed ih =>
    obtain ⟨hd, hpassed⟩ := List.forall_mem_cons.1 h
    rw [List.cons_append, nearest_cons, hd, ih hpassed]

theorem seen_eq_nearest {passed ahead : List Path} (hp : p.ancestors = passed ++ ahead)
    (h : ∀ d ∈ passed, name? d = none) {d : Path} (hd : d ∈ passed) :
    seen name? d = nearest name? ahead := by
  obtain ⟨before, behind, rfl⟩ := List.append_of_mem hd
  rw [List.append_assoc, List.cons_append] at hp
  rw [seen, Path.ancestors_of_append hp, ← List.cons_append]
  exact nearest_append (fun e he => h e (List.mem_append_right _ he)) ahead

namespace Search

def Right (name? : Path → Option String) (p : Path) : Search → Prop
  | .start directories => directories = p.ancestors
  | .walk passed ahead => p.ancestors = passed ++ ahead ∧ ∀ d ∈ passed, name? d = none
  | .leave passed found =>
    Alike found (find name? p) ∧ ∀ d ∈ passed, Alike found (seen name? d)
  | .done found => Alike found (find name? p)

theorem right_leave {passed ahead : List Path} {found : Option Package}
    (h : Right name? p (.walk passed ahead)) (hf : Alike found (nearest name? ahead)) :
    Right name? p (.leave passed found) := by
  obtain ⟨hp, hnameless⟩ := h
  constructor
  · rw [find, hp, nearest_append hnameless]
    exact hf
  · intro d hd
    rw [seen_eq_nearest hp hnameless hd]
    exact hf

theorem Right.step (hn : ∀ d e : Path, d.location = e.location → name? d = name? e)
    (hm : memo.Sound name?) {c : Search} (h : Right name? p c) :
    Right name? p (c.step name? memo).1 ∧ (c.step name? memo).2.Sound name? := by
  cases c with
  | start directories =>
    have hp : directories = p.ancestors := h
    cases directories with
    | nil =>
      refine ⟨?_, hm⟩
      rw [Search.step, Right, find, ← hp]
      exact .refl _
    | cons d ds =>
      rw [Search.step]
      cases hk : memo.lookup d.location with
      | some known =>
        refine ⟨?_, hm⟩
        have hknown := hm d known hk
        rw [seen, Path.ancestors_of_eq_cons hp.symm] at hknown
        rw [Right, find, ← hp]
        exact hknown
      | none => exact ⟨⟨hp.symm, List.forall_mem_nil _⟩, hm⟩
  | walk passed ahead =>
    obtain ⟨hp, hnameless⟩ := h
    cases ahead with
    | nil => exact ⟨right_leave ⟨hp, hnameless⟩ (.refl _), hm⟩
    | cons d ds =>
      have hd : seen name? d = nearest name? (d :: ds) := by
        rw [seen, Path.ancestors_of_append hp]
      rw [Search.step]
      cases hk : memo.lookup d.location with
      | some known => exact ⟨right_leave ⟨hp, hnameless⟩ (hd ▸ hm d known hk), hm⟩
      | none =>
        cases hname : name? d with
        | some name =>
          have hfound : nearest name? (d :: ds) = some ⟨name, d⟩ := by rw [nearest_cons, hname]
          have halike : Alike (some ⟨name, d⟩) (nearest name? (d :: ds)) := hfound ▸ .refl _
          obtain ⟨hfind, hpassed⟩ := right_leave ⟨hp, hnameless⟩ halike
          have hlast : Alike (some ⟨name, d⟩) (seen name? d) := hd ▸ halike
          exact ⟨⟨hfind, List.forall_mem_append.2 ⟨hpassed, List.forall_mem_singleton.2 hlast⟩⟩, hm⟩
        | none =>
          have hnameless' : ∀ e ∈ passed ++ [d], name? e = none :=
            List.forall_mem_append.2 ⟨hnameless, List.forall_mem_singleton.2 hname⟩
          exact ⟨⟨by rw [hp, List.append_assoc, List.singleton_append], hnameless'⟩, hm⟩
  | leave passed found => exact ⟨h.1, hm.learn hn h.2⟩
  | done found => exact ⟨h, hm⟩

def remaining : Search → ℕ
  | .start directories => directories.length + 3
  | .walk _ ahead => ahead.length + 2
  | .leave .. => 1
  | .done _ => 0

theorem remaining_step (name? : Path → Option String) (memo : Memo) (c : Search) :
    (c.step name? memo).1.remaining ≤ c.remaining - 1 := by
  cases c with
  | start directories =>
    cases directories with
    | nil => exact Nat.zero_le _
    | cons d ds =>
      rw [step]
      split
      · exact Nat.zero_le _
      · exact Nat.le_refl _
  | walk passed ahead =>
    cases ahead with
    | nil => exact Nat.le_refl _
    | cons d ds =>
      rw [step]
      split
      · simp [remaining]
      · split <;> simp [remaining]
  | leave passed found => exact Nat.le_refl _
  | done found => exact Nat.le_refl _

theorem exists_done {c : Search} (h : c.remaining = 0) : ∃ found, c = .done found := by
  cases c with
  | done found => exact ⟨found, rfl⟩
  | _ => cases h

end Search

namespace Lookups

variable {s : Lookups} {i : ℕ}

/-- Whether every lookup is where it should be, and only what a walk would find is remembered. -/
structure Right (name? : Path → Option String) (paths : List Path) (s : Lookups) : Prop where
  sound : s.memo.Sound name?
  length_eq : s.searches.length = paths.length
  search {i : ℕ} {p : Path} {c : Search} :
    paths[i]? = some p → s.searches[i]? = some c → c.Right name? p

theorem right_ofPaths (name? : Path → Option String) (paths : List Path) :
    (ofPaths paths).Right name? paths where
  sound := Memo.sound_nil name?
  length_eq := List.length_map _
  search hp hc := by
    rw [ofPaths, List.getElem?_map, hp] at hc
    cases hc
    rfl

variable {paths : List Path}

theorem step_eq {c : Search} (h : s.searches[i]? = some c) :
    s.step name? i = ⟨(c.step name? s.memo).2, s.searches.set i (c.step name? s.memo).1⟩ := by
  rw [step, h]

theorem step_of_none (h : s.searches[i]? = none) : s.step name? i = s := by
  rw [step, h]

theorem Right.step (hn : ∀ d e : Path, d.location = e.location → name? d = name? e)
    (h : s.Right name? paths) (j : ℕ) : (s.step name? j).Right name? paths := by
  cases hj : s.searches[j]? with
  | none => rwa [step_of_none hj]
  | some c =>
    obtain ⟨hlt, -⟩ := List.getElem?_eq_some_iff.1 hj
    have hq := List.getElem?_eq_getElem (h.length_eq ▸ hlt)
    obtain ⟨hright, hsound⟩ := (h.search hq hj).step hn h.sound
    rw [step_eq hj]
    constructor
    · exact hsound
    · rw [List.length_set, h.length_eq]
    · intro i p c' hp hc
      rw [List.getElem?_set] at hc
      split at hc
      · next he =>
        subst he
        rw [Option.some.injEq] at hc
        rw [hq, Option.some.injEq] at hp
        rwa [← hc, ← hp]
      · exact h.search hp hc

/-- Lookups stay right, however their steps are mixed. -/
theorem Right.run (hn : ∀ d e : Path, d.location = e.location → name? d = name? e)
    (h : s.Right name? paths) (schedule : List ℕ) : (s.run name? schedule).Right name? paths := by
  induction schedule generalizing s with
  | nil => exact h
  | cons j schedule ih => exact ih (h.step hn j)

theorem remaining_run (name? : Path → Option String) (schedule : List ℕ) {c : Search}
    (h : s.searches[i]? = some c) :
    ∃ c', (s.run name? schedule).searches[i]? = some c' ∧
      c'.remaining ≤ c.remaining - schedule.count i := by
  induction schedule generalizing s c with
  | nil => exact ⟨c, h, Nat.le_refl _⟩
  | cons j schedule ih =>
    by_cases hj : j = i
    · subst hj
      have hstep : (s.step name? j).searches[j]? = some (c.step name? s.memo).1 := by
        rw [step_eq h, List.getElem?_set_self (List.getElem?_eq_some_iff.1 h).1]
      obtain ⟨c', hc', hle⟩ := ih hstep
      have hdown := Search.remaining_step name? s.memo c
      refine ⟨c', hc', ?_⟩
      rw [List.count_cons_self]
      omega
    · have hstep : (s.step name? j).searches[i]? = some c := by
        cases hjs : s.searches[j]? with
        | none => rwa [step_of_none hjs]
        | some c' => rwa [step_eq hjs, List.getElem?_set_ne hj]
      obtain ⟨c', hc', hle⟩ := ih hstep
      refine ⟨c', hc', ?_⟩
      rwa [List.count_cons_of_ne hj]

theorem exists_answer? (name? : Path → Option String) {schedule : List ℕ}
    (hp : paths[i]? = some p) (h : p.ancestors.length + 3 ≤ schedule.count i) :
    ∃ found, ((ofPaths paths).run name? schedule).answer? i = some found := by
  have hstart : (ofPaths paths).searches[i]? = some (.ofPath p) := by
    rw [ofPaths, List.getElem?_map, hp, Option.map_some]
  obtain ⟨c, hc, hle⟩ := remaining_run name? schedule hstart
  have hzero : c.remaining = 0 := by
    rw [Search.ofPath, Search.remaining] at hle
    omega
  obtain ⟨found, rfl⟩ := Search.exists_done hzero
  exact ⟨found, by rw [answer?, hc]⟩

theorem Right.alike (h : s.Right name? paths) (hp : paths[i]? = some p) {found : Option Package}
    (hf : s.answer? i = some found) : Alike found (find name? p) := by
  rw [answer?] at hf
  split at hf
  · next hc =>
    cases hf
    exact h.search hp hc
  · cases hf

theorem getElem?_set_step {c c' : Search} (h : s.searches[i]? = some c) :
    (s.searches.set i c')[i]? = some c' :=
  List.getElem?_set_self (List.getElem?_eq_some_iff.1 h).1

theorem run_replicate_succ {c : Search} (h : s.searches[i]? = some c) (k : ℕ) :
    s.run name? (List.replicate (k + 1) i) =
      run name? (List.replicate k i)
        ⟨(c.step name? s.memo).2, s.searches.set i (c.step name? s.memo).1⟩ := by
  rw [List.replicate_succ, run, List.foldl_cons, step_eq h, run]

theorem run_done {found : Option Package} (h : s.searches[i]? = some (.done found)) (k : ℕ) :
    s.run name? (List.replicate k i) = s := by
  have hset : s.searches.set i (.done found) = s.searches := by
    obtain ⟨hlt, he⟩ := List.getElem?_eq_some_iff.1 h
    rw [← he, List.set_getElem_self]
  induction k with
  | zero => rfl
  | succ k ih => rwa [run_replicate_succ h, Search.step, hset]

theorem run_leave {passed : List Path} {found : Option Package}
    (h : s.searches[i]? = some (.leave passed found)) (k : ℕ) :
    s.run name? (List.replicate (k + 1) i) =
      ⟨s.memo.learn passed found, s.searches.set i (.done found)⟩ := by
  rw [run_replicate_succ h, Search.step, run_done (getElem?_set_step h)]

theorem run_walk {passed ahead : List Path} (h : s.searches[i]? = some (.walk passed ahead)) :
    s.run name? (List.replicate (ahead.length + 2) i) =
      ⟨s.memo.learn (passed ++ (s.memo.walk name? ahead).1) (s.memo.walk name? ahead).2,
        s.searches.set i (.done (s.memo.walk name? ahead).2)⟩ := by
  induction ahead generalizing s passed with
  | nil =>
    rw [List.length_nil, run_replicate_succ h, Search.step, run_leave (getElem?_set_step h),
      List.set_set, Memo.walk, List.append_nil]
  | cons d ds ih =>
    rw [List.length_cons, run_replicate_succ h, Search.step, Memo.walk]
    cases hk : s.memo.lookup d.location with
    | some known =>
      dsimp only
      rw [run_leave (getElem?_set_step h), List.set_set, List.append_nil]
    | none =>
      cases hname : name? d with
      | some name =>
        dsimp only
        rw [run_leave (getElem?_set_step h), List.set_set]
      | none =>
        dsimp only
        rw [ih (getElem?_set_step h), List.set_set, List.append_assoc, List.singleton_append]

/-- A lookup whose steps nobody comes between does what a single lookup does. -/
theorem run_ofPath {p : Path} (h : s.searches[i]? = some (.ofPath p)) :
    s.run name? (List.replicate (p.ancestors.length + 3) i) =
      ⟨(s.memo.find name? p).2, s.searches.set i (.done (s.memo.find name? p).1)⟩ := by
  rw [Search.ofPath] at h
  rw [Memo.find]
  cases hp : p.ancestors with
  | nil =>
    rw [hp] at h
    rw [run_replicate_succ h, Search.step, run_done (getElem?_set_step h), Memo.walk]
    rfl
  | cons d ds =>
    rw [hp] at h
    rw [run_replicate_succ h, Search.step]
    cases hk : s.memo.lookup d.location with
    | some known =>
      dsimp only
      rw [run_done (getElem?_set_step h), Memo.walk, hk]
      rfl
    | none =>
      dsimp only
      rw [run_walk (getElem?_set_step h), List.set_set, List.nil_append]

/-- However lookups are mixed, each comes to an end after steps of its own, with the package that a
plain walk up from its stylesheet finds; and so do lookups that come later. No name depends on any of
them: a generator that has served any requests gives the names that a new one gives. -/
theorem run_finds_nearest (names : Location → Option String) (paths : List Path)
    (schedule : List ℕ) :
    let name? : Path → Option String := names ∘ Path.location
    let s := (ofPaths paths).run name? schedule
    (∀ i p, paths[i]? = some p →
      (p.ancestors.length + 3 ≤ schedule.count i → ∃ found, s.answer? i = some found) ∧
        ∀ found, s.answer? i = some found → Alike found (find name? p) ∧
          ∀ n : Naming, n.needsPackage = true → ∀ className,
            n.identifier found className p = n.scopedName name? className p) ∧
      (∀ p, Alike (s.memo.find name? p).1 (find name? p)) ∧
      ∀ (n : Naming) (requests : List (String × Path)),
        (n.generateEach name? s.memo requests).1 =
          requests.map fun request => n.scopedName name? request.1 request.2 := by
  intro name? s
  have hn : ∀ d e : Path, d.location = e.location → name? d = name? e :=
    fun d e h => congrArg names h
  have hright : s.Right name? paths := (right_ofPaths name? paths).run hn schedule
  refine ⟨?_, ?_, ?_⟩
  · intro i p hp
    refine ⟨exists_answer? name? hp, ?_⟩
    intro found hf
    have halike := hright.alike hp hf
    refine ⟨halike, ?_⟩
    intro n hpackage className
    rw [n.identifier_congr halike className p, Naming.scopedName, if_pos hpackage]
  · intro p
    exact (hright.sound.find hn p).1
  · intro n requests
    exact n.generateEach_eq_map hright.sound hn requests

theorem run_finds_nearest_twoStylesheets :
    let names : Location → Option String :=
      fun l => if l = [.root, .name "p"] then some "ui" else none
    let name? : Path → Option String := names ∘ Path.location
    let p : Path := ⟨"/p//b/y.css"⟩
    let paths : List Path := [⟨"/p/a/x.css"⟩, p]
    let schedule := [0, 1, 0, 0, 0, 1, 0, 1, 0, 1, 0, 1, 1]
    let s := (ofPaths paths).run name? schedule
    let n : Naming := ⟨.template ⟨"[package]_[local]", [.package, .literal "_", .localName]⟩,
      ⟨.default, none, .tiered⟩, ⟨"/p"⟩, none⟩
    paths[1]? = some p ∧ p.ancestors.length + 3 ≤ schedule.count 1 ∧
      s.answer? 1 = some (some ⟨"ui", ⟨"/p"⟩⟩) ∧ n.needsPackage = true ∧
      (∃ found, s.answer? 1 = some found) ∧ Alike (some ⟨"ui", ⟨"/p"⟩⟩) (find name? p) ∧
      n.identifier (some ⟨"ui", ⟨"/p"⟩⟩) "x" p = n.scopedName name? "x" p := by
  intro names name? p paths schedule s n
  have hp : paths[1]? = some p := rfl
  have hcount : p.ancestors.length + 3 ≤ schedule.count 1 := by decide +kernel
  have hanswer : s.answer? 1 = some (some ⟨"ui", ⟨"/p"⟩⟩) := by decide +kernel
  have hneeds : n.needsPackage = true := rfl
  obtain ⟨hreturns, hfinds⟩ := (run_finds_nearest names paths schedule).1 1 p hp
  obtain ⟨halike, hnames⟩ := hfinds _ hanswer
  exact ⟨hp, hcount, hanswer, hneeds, hreturns hcount, halike, hnames n hneeds "x"⟩

end Lookups

end Package

end CssModules
