import CssModules.Proofs.Resolution.Sessions

namespace CssModules

open Relation

namespace System

variable {σ : Type} {h : Host σ} {lib : Library} {files : Set Path} {I : σ → Prop} {state : σ}
  {s s' : System σ} {id : ResolutionId} {p : Path} {answer : Except Error FinishedMap}

/-- A faithful system in which all resolutions have their answers. -/
structure Rested (lib : Library) (files : Set Path) (I : σ → Prop) (s : System σ) : Prop where
  consistent : s.Consistent
  faithful : ∃ roots, Faithful lib files Eq I roots s
  done {id : ResolutionId} {t : Task} : s.task? id = some t → ∃ answer, t.control = .done answer

theorem rested_initial (hI : I state) : Rested lib files I (initial state) where
  consistent := consistent_initial state
  faithful := ⟨[], upholds_initial hI⟩
  done := nofun

namespace Rested

theorem clear (hs : Rested lib files I s) : Rested lib files I s.clear where
  consistent := hs.consistent.clear
  faithful := by
    obtain ⟨roots, hf⟩ := hs.faithful
    exact ⟨roots, hf.clear⟩
  done := hs.done

theorem lone (hs : Rested lib files I s) (hp : p ∈ files) :
    Lone lib files I s.freshId (s.start s.freshId p) where
  consistent := hs.consistent.start p
  faithful := by
    obtain ⟨roots, hf⟩ := hs.faithful
    exact ⟨_, hf.start (.claim (.nil hp))⟩
  others := others_start hs.done p

theorem of_lone (hs : Lone lib files I id s) (ha : s.answer? id = some answer) :
    Rested lib files I s where
  consistent := hs.consistent
  faithful := hs.faithful
  done := done_of_others ha hs.others

theorem resolveAt (hs : Rested lib files I s) (hu : lib.Uniform files Eq)
    (hv : h.Serves lib Eq I) (hp : p ∈ files) {fuel : ℕ}
    (hr : s.resolveAt h fuel p = (some answer, s')) : Rested lib files I s' := by
  obtain ⟨ha, rfl⟩ := Prod.mk.inj hr
  have hl := (hs.lone hp).run hu hv fuel
  rw [← runAlone_eq_run] at hl
  exact of_lone hl ha

/-- A resolution has the result of the evaluation, with as many steps as it takes or more. -/
theorem exists_resolveAt (hs : Rested lib files I s) (hu : lib.Uniform files Eq)
    (hv : h.Serves lib Eq I) (hp : p ∈ files) {r : Except Error TokenMap}
    (he : lib.Evaluates [] (.request p) r) :
    ∃ n, ∀ fuel ≥ n, ∃ answer s', s.resolveAt h fuel p = (some answer, s') ∧
      answer.map FinishedMap.map = r := by
  have hat : (s.start s.freshId p).At s.freshId (.claim p, []) := by
    simp [At, task?_start]
  obtain ⟨n, next, hresumes, ht⟩ := he.follows hu hv _ [] (hs.lone hp) rfl hat
  have hdone : ∃ answer : Except Error FinishedMap, next = (.done answer, []) ∧
      answer.map FinishedMap.map = r := by
    cases hresumes with
    | ok finished => exact ⟨.ok finished, rfl, rfl⟩
    | error e => exact ⟨.error e, rfl, rfl⟩
  obtain ⟨answer, rfl, hr⟩ := hdone
  have ha := answer?_eq_some_iff.2 ⟨[], ht⟩
  refine ⟨n, fun fuel hfuel => ⟨answer, _, Prod.ext ?_ rfl, hr⟩⟩
  obtain ⟨more, rfl⟩ := Nat.exists_eq_add_of_le hfuel
  rw [System.resolveAt]
  simp only [runAlone_eq_run, ← List.replicate_append_replicate, run_append,
    run_replicate_of_answer? ha, ha]

end Rested

/-- What earlier resolutions of some stylesheets, each with an answer, leave behind one after
another, where the finished maps may be forgotten in between. -/
inductive Reached (h : Host σ) (files : Set Path) (state : σ) : System σ → Prop
  | initial : Reached h files state (initial state)
  | resolve {s s' : System σ} {cwd p fuel answer} (hs : Reached h files state s)
      (hp : Path.absolute cwd p ∈ files) (hr : s.resolve h fuel cwd p = (some answer, s')) :
      Reached h files state s'
  | clear {s : System σ} (hs : Reached h files state s) : Reached h files state s.clear

theorem Reached.of_isSome (hs : Reached h files state s) {cwd : Path} {fuel : ℕ}
    (hp : Path.absolute cwd p ∈ files) (ha : (s.resolve h fuel cwd p).1.isSome = true) :
    Reached h files state (s.resolve h fuel cwd p).2 := by
  obtain ⟨answer, ha⟩ := Option.isSome_iff_exists.1 ha
  exact hs.resolve hp (Prod.ext ha rfl)

theorem Reached.rested (hr : Reached h files state s) (hu : lib.Uniform files Eq)
    (hv : h.Serves lib Eq I) (hI : I state) : Rested lib files I s := by
  induction hr with
  | initial => exact rested_initial hI
  | resolve _ hp hr ih => exact ih.resolveAt hu hv hp hr
  | clear _ ih => exact ih.clear

end System

def twoPaths : Set Path := {⟨"/p/a.css"⟩, ⟨"/p/b.css"⟩}

/-- A stylesheet without compositions, and one that takes its classes from it under some spelling of
its path. -/
def stylesheetsWith (classes : Path → List String) (spelling p : Path) : Except Error Stylesheet :=
  if p.same ⟨"/p/a.css"⟩ then .ok ⟨classes p, []⟩
  else if p.same ⟨"/p/b.css"⟩ then
    .ok ⟨["b"], [⟨"b", classes spelling, .file "./a.css" spelling⟩]⟩
  else .error (.stylesheetNotFound p)

def twoStylesheets : (spelling p : Path) → Except Error Stylesheet := stylesheetsWith fun _ => ["a"]

def spelledStylesheets : (spelling p : Path) → Except Error Stylesheet :=
  stylesheetsWith fun p => [p.text]

def namingBy (f : String → Path → String) : Naming where
  strategy := .callback f
  hash := ⟨.default, none, .tiered⟩
  projectRoot := ⟨"/p"⟩
  pathRegex := none

def namingBySpelling : Naming := namingBy fun className p => p.text ++ "#" ++ className

def namingByClass : Naming := namingBy fun className _ => className

theorem stylesheetsWith_of_location (classes : Path → List String) (spelling : Path) {p : Path}
    (hp : p.location = (⟨"/p/a.css"⟩ : Path).location) :
    stylesheetsWith classes spelling p = .ok ⟨classes p, []⟩ := by
  have hs : p.same ⟨"/p/a.css"⟩ = true := beq_iff_eq.2 hp
  rw [stylesheetsWith, if_pos hs]

theorem finite_stylesheetsWith (classes : Path → List String) (spelling : Path)
    (name : String → Path → String) (files : Set Path) :
    {l | ReflTransGen ((⟨stylesheetsWith classes spelling, name⟩ : Library).Composes files)
      (⟨"/p/a.css"⟩ : Path).location l}.Finite := by
  refine (Set.finite_singleton (⟨"/p/a.css"⟩ : Path).location).subset fun l hl => ?_
  rcases hl.cases_head with rfl | ⟨_, ⟨p, _, hp, sheet, hr, q, hq, _⟩, _⟩
  · rfl
  · cases (stylesheetsWith_of_location classes spelling hp).symm.trans hr
    cases hq

theorem finite_twoPaths : twoPaths.Finite := (Set.finite_singleton _).insert _

theorem eq_of_location_twoPaths {p q : Path} (hp : p ∈ twoPaths) (hq : q ∈ twoPaths)
    (h : p.location = q.location) : p = q := by
  have hne : (⟨"/p/a.css"⟩ : Path).location ≠ (⟨"/p/b.css"⟩ : Path).location := by decide +kernel
  rcases hp with rfl | rfl <;> rcases hq with rfl | rfl
  · rfl
  · exact absurd h hne
  · exact absurd h.symm hne
  · rfl

theorem scopedName_eq_twoPaths (n : Naming) (name? : Path → Option String) (className : String) :
    ∀ p ∈ twoPaths, ∀ q ∈ twoPaths, p.location = q.location →
      n.scopedName name? className p = n.scopedName name? className q := by
  intro p hp q hq hl
  rw [eq_of_location_twoPaths hp hq hl]

theorem coherent_twoStylesheets (name : String → Path → String) :
    (⟨twoStylesheets ⟨"/p/a.css"⟩, name⟩ : Library).Coherent twoPaths where
  target_mem {p q sheet} hp hr hq := by
    rcases hp with rfl | rfl
    · have hs : twoStylesheets ⟨"/p/a.css"⟩ ⟨"/p/a.css"⟩ = .ok ⟨["a"], []⟩ := by decide +kernel
      cases hs.symm.trans hr
      cases hq
    · have hs : twoStylesheets ⟨"/p/a.css"⟩ ⟨"/p/b.css"⟩ =
          .ok ⟨["b"], [⟨"b", ["a"], .file "./a.css" ⟨"/p/a.css"⟩⟩]⟩ := by decide +kernel
      cases hs.symm.trans hr
      obtain rfl := List.mem_singleton.1 hq
      exact .inl rfl
  read_eq hp hq h hr := eq_of_location_twoPaths hp hq h ▸ hr

namespace Session

/-- A resolution has exactly the result of the evaluation, whatever earlier ones have left behind,
and it has it if only finitely many stylesheets can be reached; and it fails as a cycle exactly if
the evaluation comes to a request on its own chain. -/
theorem resolve_eq_evaluation (read : Path → Except Error Stylesheet) (n : Naming)
    (name? : Path → Option String) (files : Set Path)
    (hmanifests : ∀ d e : Path, d.location = e.location → name? d = name? e)
    (hread : (n.library read name?).Coherent files)
    (hnames : ∀ className, ∀ p ∈ files, ∀ q ∈ files, p.location = q.location →
      n.scopedName name? className p = n.scopedName name? className q)
    {s : System Session} (hs : System.Reached (host read n name?) files empty s) (cwd p : Path)
    (hp : Path.absolute cwd p ∈ files)
    (hfin : {l | ReflTransGen ((n.library read name?).Composes files)
      (Path.absolute cwd p).location l}.Finite) :
    ∃ r, (∀ r', (n.library read name?).Evaluates [] (.request (Path.absolute cwd p)) r' ↔ r' = r) ∧
      (∃ enough, ∀ fuel ≥ enough, ∃ answer s',
        s.resolve (host read n name?) fuel cwd p = (some answer, s') ∧
          answer.map FinishedMap.map = r) ∧
      ((∃ c, r = .error (.cyclicComposition c)) ↔ ∃ chain q,
        (n.library read name?).Requests [] (.request (Path.absolute cwd p)) chain q ∧
          (n.library read name?).Cyclic chain q) := by
  have hu := hread.uniform hnames
  have hv := host_serves read n hmanifests
  have hrest := hs.rested hu hv (Package.Memo.sound_nil name?)
  obtain ⟨r, he⟩ := Library.exists_evaluates hread hp hfin
  refine ⟨r, fun r' => ⟨fun he' => he'.deterministic he, fun hr => hr ▸ he⟩, ?_, he.cyclic_iff⟩
  exact hrest.exists_resolveAt hu hv hp he

theorem resolve_eq_evaluation_twoStylesheets :
    let h := host (twoStylesheets ⟨"/p/a.css"⟩) namingBySpelling fun _ => none
    let lib := namingBySpelling.library (twoStylesheets ⟨"/p/a.css"⟩) fun _ => none
    let s := ((System.initial empty).resolve h 9 ⟨"/"⟩ ⟨"/p/a.css"⟩).2
    System.Reached h twoPaths empty s ∧ Path.absolute ⟨"/p"⟩ ⟨"b.css"⟩ ∈ twoPaths ∧
      ∃ r, (∀ r', lib.Evaluates [] (.request (Path.absolute ⟨"/p"⟩ ⟨"b.css"⟩)) r' ↔ r' = r) ∧
        (∃ enough, ∀ fuel ≥ enough, ∃ answer s',
          s.resolve h fuel ⟨"/p"⟩ ⟨"b.css"⟩ = (some answer, s') ∧
            answer.map FinishedMap.map = r) ∧
        ((∃ c, r = .error (.cyclicComposition c)) ↔ ∃ chain q,
          lib.Requests [] (.request (Path.absolute ⟨"/p"⟩ ⟨"b.css"⟩)) chain q ∧
            lib.Cyclic chain q) := by
  intro h lib s
  have hb : Path.absolute ⟨"/p"⟩ ⟨"b.css"⟩ = ⟨"/p/b.css"⟩ := by decide +kernel
  have ha : Path.absolute ⟨"/"⟩ ⟨"/p/a.css"⟩ = ⟨"/p/a.css"⟩ := by decide +kernel
  have hmem : Path.absolute ⟨"/p"⟩ ⟨"b.css"⟩ ∈ twoPaths := by
    rw [hb]
    exact .inr rfl
  have hco : lib.Coherent twoPaths := coherent_twoStylesheets _
  have hs : System.Reached h twoPaths empty s := by
    refine System.Reached.initial.of_isSome ?_ (by decide +kernel)
    rw [ha]
    exact .inl rfl
  refine ⟨hs, hmem, ?_⟩
  exact resolve_eq_evaluation _ _ _ twoPaths (fun _ _ _ => rfl) hco
    (scopedName_eq_twoPaths _ _) hs ⟨"/p"⟩ ⟨"b.css"⟩ hmem (hco.finite finite_twoPaths hmem)

/-- Where two spellings of a path are named differently, or read differently, a resolution can have
the names or the classes of another spelling than its own; and whoever reads stylesheets can call
one a cycle that is none. -/
theorem resolve_ne_evaluation :
    (let h := host (twoStylesheets ⟨"/p/./a.css"⟩) namingBySpelling fun _ => none
      let lib := namingBySpelling.library (twoStylesheets ⟨"/p/./a.css"⟩) fun _ => none
      let s := ((System.initial empty).resolve h 9 ⟨"/"⟩ ⟨"/p/b.css"⟩).2
      System.Reached h Set.univ empty s ∧
        {l | ReflTransGen (lib.Composes Set.univ) (⟨"/p/a.css"⟩ : Path).location l}.Finite ∧
        lib.Evaluates [] (.request ⟨"/p/a.css"⟩) (.ok ⟨[("a", "/p/a.css#a")]⟩) ∧
        (s.resolve h 9 ⟨"/"⟩ ⟨"/p/a.css"⟩).1 = some (.ok ⟨0, ⟨[("a", "/p/./a.css#a")]⟩⟩)) ∧
    (let h := host (spelledStylesheets ⟨"/p/./a.css"⟩) namingByClass fun _ => none
      let lib := namingByClass.library (spelledStylesheets ⟨"/p/./a.css"⟩) fun _ => none
      let s := ((System.initial empty).resolve h 9 ⟨"/"⟩ ⟨"/p/b.css"⟩).2
      System.Reached h Set.univ empty s ∧
        {l | ReflTransGen (lib.Composes Set.univ) (⟨"/p/a.css"⟩ : Path).location l}.Finite ∧
        lib.Evaluates [] (.request ⟨"/p/a.css"⟩) (.ok ⟨[("/p/a.css", "/p/a.css")]⟩) ∧
        (s.resolve h 9 ⟨"/"⟩ ⟨"/p/a.css"⟩).1 =
          some (.ok ⟨0, ⟨[("/p/./a.css", "/p/./a.css")]⟩⟩)) ∧
    (let h := host (fun _ => .error (.cyclicComposition [])) namingByClass fun _ => none
      let lib := namingByClass.library (fun _ => .error (.cyclicComposition [])) fun _ => none
      ((System.initial empty).resolve h 9 ⟨"/"⟩ ⟨"/p/a.css"⟩).1 =
          some (.error (.cyclicComposition [])) ∧
        ∀ chain q, lib.Requests [] (.request ⟨"/p/a.css"⟩) chain q →
          q.location ∉ chain.map Path.location) := by
  refine ⟨⟨?_, finite_stylesheetsWith _ _ _ _, ?_, by decide +kernel⟩,
    ⟨?_, finite_stylesheetsWith _ _ _ _, ?_, by decide +kernel⟩, by decide +kernel, ?_⟩
  · exact System.Reached.initial.of_isSome (Set.mem_univ _) (by decide +kernel)
  · have hd : (namingBySpelling.library (twoStylesheets ⟨"/p/./a.css"⟩) fun _ => none).declared
        ⟨"/p/a.css"⟩ ["a"] = ⟨[("a", "/p/a.css#a")]⟩ := by decide +kernel
    rw [← hd]
    exact .readable (by simp)
      (stylesheetsWith_of_location (fun _ => ["a"]) ⟨"/p/./a.css"⟩ rfl) .finished
  · exact System.Reached.initial.of_isSome (Set.mem_univ _) (by decide +kernel)
  · have hd : (namingByClass.library (spelledStylesheets ⟨"/p/./a.css"⟩) fun _ => none).declared
        ⟨"/p/a.css"⟩ ["/p/a.css"] = ⟨[("/p/a.css", "/p/a.css")]⟩ := by decide +kernel
    rw [← hd]
    exact .readable (by simp)
      (stylesheetsWith_of_location (fun p => [p.text]) ⟨"/p/./a.css"⟩ rfl) .finished
  · intro chain q hq
    cases hq with
    | here => simp
    | inside _ hr => cases hr

end Session

end CssModules
