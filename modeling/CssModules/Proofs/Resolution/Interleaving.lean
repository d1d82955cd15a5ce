import CssModules.Proofs.Naming.Manifests
import CssModules.Proofs.Resolution.Sequential

namespace CssModules

/-- Results that are both there and related, or both failures that differ at most in the stylesheets
of a cycle. -/
inductive ResultsAlike {α β : Type} (R : α → β → Prop) : Except Error α → Except Error β → Prop
  | ok {a : α} {b : β} (h : R a b) : ResultsAlike R (.ok a) (.ok b)
  | error {e e' : Error} (h : e.Alike e') : ResultsAlike R (.error e) (.error e')

def FinishedMap.EqMap (a b : FinishedMap) : Prop := a.map = b.map

theorem ResultsAlike.of_map_eq {a b : Except Error FinishedMap} {r : Except Error TokenMap}
    (ha : ResultsAlike (fun finished m => finished.map = m) a r)
    (hb : b.map FinishedMap.map = r) : ResultsAlike FinishedMap.EqMap a b := by
  cases b with
  | ok b =>
    subst hb
    cases ha with
    | ok h => exact .ok h
  | error e =>
    subst hb
    cases ha with
    | error h => exact .error h

theorem map_fst_of_forall₂ {α β γ : Type} {R : β → γ → Prop} {as : List (α × β)}
    {bs : List (α × γ)} (h : List.Forall₂ (fun a b => a.1 = b.1 ∧ R a.2 b.2) as bs) :
    bs.map Prod.fst = as.map Prod.fst := by
  induction h with
  | nil => rfl
  | cons hab _ ih => rw [List.map_cons, List.map_cons, hab.1, ih]

namespace Workplace

theorem collect_error_cons {α : Type} (p : Path) (e : Error)
    (answers : List (Path × Except Error α)) : collect ((p, .error e) :: answers) = .error e := by
  rw [collect, List.mapM_cons]
  rfl

theorem collect_ok_cons {α : Type} (p : Path) (a : α) (answers : List (Path × Except Error α)) :
    collect ((p, .ok a) :: answers) = (collect answers).map ((p, a) :: ·) := by
  rw [collect, List.mapM_cons, collect]
  cases List.mapM (m := Except Error) _ answers <;> rfl

theorem collect_alike {answers answers' : List (Path × Except Error FinishedMap)}
    (h : List.Forall₂ (fun a b => a.1 = b.1 ∧ ResultsAlike FinishedMap.EqMap a.2 b.2)
      answers answers') :
    ResultsAlike (List.Forall₂ fun a b => a.1 = b.1 ∧ a.2.EqMap b.2) (collect answers)
      (collect answers') := by
  induction h with
  | nil => exact .ok .nil
  | @cons a b as bs hab _ ih =>
    obtain ⟨p, x⟩ := a
    obtain ⟨q, y⟩ := b
    obtain ⟨rfl, hxy⟩ := hab
    cases hxy with
    | error he =>
      rw [collect_error_cons, collect_error_cons]
      exact .error he
    | ok hm =>
      rw [collect_ok_cons, collect_ok_cons]
      generalize collect as = r at ih ⊢
      generalize collect bs = r' at ih ⊢
      cases ih with
      | error he => exact .error he
      | ok hl => exact .ok (.cons ⟨rfl, hm⟩ hl)

end Workplace

namespace System

variable {σ : Type} {h : Host σ} {lib : Library} {files : Set Path} {I : σ → Prop}
  {s s' : System σ} {id : ResolutionId} {p : Path}

theorem Faithful.answer {roots : List Path} (hf : Faithful lib files Eq I roots s)
    {answer : Except Error FinishedMap} (hr : roots[id]? = some p)
    (ha : s.answer? id = some answer) : ∃ r, lib.Evaluates [] (.request p) r ∧
      ResultsAlike (fun finished m => finished.map = m) answer r := by
  obtain ⟨frames, ht⟩ := answer?_eq_some_iff.1 ha
  obtain ⟨root, hr', hsound⟩ := hf.task ht
  cases hr.symm.trans hr'
  cases hsound with
  | finished he hl => exact ⟨_, he, .ok hl⟩
  | failed he halike => exact ⟨_, he, .error halike⟩

theorem Faithful.steps {roots : List Path} (hf : Faithful lib files Eq I roots s)
    (hs : s.Consistent) (hu : lib.Uniform files Eq) (hv : h.Serves lib Eq I) (id : ResolutionId)
    (n : ℕ) : Faithful lib files Eq I roots (s.run h (List.replicate n (.step id))) := by
  induction n generalizing s with
  | zero => exact hf
  | succ n ih => exact ih (Faithful.step hf hu hv hs id) (hs.perform (.step id))

theorem Rested.evaluates_of_resolveAt (hs : Rested lib files I s) (hu : lib.Uniform files Eq)
    (hv : h.Serves lib Eq I) (hp : p ∈ files) {fuel : ℕ} {finished : FinishedMap}
    (hr : s.resolveAt h fuel p = (some (.ok finished), s')) :
    lib.Evaluates [] (.request p) (.ok finished.map) := by
  obtain ⟨roots, hf⟩ := hs.faithful
  obtain ⟨ha, -⟩ := Prod.mk.inj hr
  have hsteps := Faithful.steps (hf.start (.claim (.nil hp))) (hs.consistent.start p) hu hv
    s.freshId fuel
  have hroot : (roots ++ [p])[s.freshId]? = some p := by
    rw [freshId, ← hf.length, List.getElem?_concat_length]
  rw [← runAlone_eq_run] at hsteps
  obtain ⟨r, he, halike⟩ := hsteps.answer hroot ha
  cases halike with
  | ok hmap => exact hmap ▸ he

/-- Resolutions one after another, each with its answer. -/
inductive Answers (h : Host σ) (cwd : Path) :
    System σ → List (Path × Except Error FinishedMap) → System σ → Prop
  | nil {s : System σ} : Answers h cwd s [] s
  | cons {s s' s'' : System σ} {p fuel answer answers}
      (hr : s.resolve h fuel cwd p = (some answer, s')) (hs : Answers h cwd s' answers s'') :
      Answers h cwd s ((p, answer) :: answers) s''

theorem Rested.exists_answers (hs : Rested lib files I s) (hu : lib.Uniform files Eq)
    (hv : h.Serves lib Eq I) (cwd : Path) {answers : List (Path × Except Error FinishedMap)}
    (ha : ∀ a ∈ answers, Path.absolute cwd a.1 ∈ files ∧
      ∃ r, lib.Evaluates [] (.request (Path.absolute cwd a.1)) r ∧
        ResultsAlike (fun finished m => finished.map = m) a.2 r) :
    ∃ answers' s', Answers h cwd s answers' s' ∧
      List.Forall₂ (fun a b => a.1 = b.1 ∧ ResultsAlike FinishedMap.EqMap a.2 b.2)
        answers answers' := by
  induction answers generalizing s with
  | nil => exact ⟨[], s, .nil, .nil⟩
  | cons a answers ih =>
    rw [List.forall_mem_cons] at ha
    obtain ⟨⟨hp, r, he, halike⟩, ha⟩ := ha
    obtain ⟨n, hn⟩ := hs.exists_resolveAt hu hv hp he
    obtain ⟨answer, s', hr, hmap⟩ := hn n le_rfl
    obtain ⟨answers', s'', hs', hall⟩ := ih (hs.resolveAt hu hv hp hr) ha
    exact ⟨(a.1, answer) :: answers', s'', .cons hr hs', .cons ⟨rfl, halike.of_map_eq hmap⟩ hall⟩

end System

/-- Two resolutions, of which one begins inside of the other and makes it wait. -/
def twoMoves : List Move :=
  [.start ⟨"/p/b.css"⟩, .step 0, .start ⟨"/p/a.css"⟩, .step 1, .step 0, .step 0, .step 1, .step 0,
    .step 0]

theorem roots_twoMoves : ∀ p ∈ Move.roots twoMoves, p ∈ twoPaths := by
  intro p hp
  obtain rfl | rfl : p = ⟨"/p/b.css"⟩ ∨ p = ⟨"/p/a.css"⟩ := by
    simpa [twoMoves, Move.roots, Move.root?, eq_comm] using hp
  · exact .inr rfl
  · exact .inl rfl

namespace Session

/-- Whatever happens in whatever order, an answer is the one that its resolution has alone on an
empty cache; and answers for some stylesheets, collected in order, come to the same as those of
resolutions one after another. -/
theorem run_answers_eq_alone (read : Path → Except Error Stylesheet) (n : Naming)
    (name? : Path → Option String) (files : Set Path)
    (hmanifests : ∀ d e : Path, d.location = e.location → name? d = name? e)
    (hread : (n.library read name?).Coherent files)
    (hnames : ∀ className, ∀ p ∈ files, ∀ q ∈ files, p.location = q.location →
      n.scopedName name? className p = n.scopedName name? className q)
    (moves : List Move) (hmoves : ∀ p ∈ Move.roots moves, p ∈ files) :
    let h := host read n name?
    let s := (System.initial empty).run h moves
    (∀ id p answer, (Move.roots moves)[id]? = some p → s.answer? id = some answer →
      ∃ enough, ∀ fuel ≥ enough, ∃ alone s',
        (System.initial empty).resolveAt h fuel p = (some alone, s') ∧
          ResultsAlike FinishedMap.EqMap answer alone) ∧
    (∀ cwd (answers : List (Path × Except Error FinishedMap)),
      (∀ a ∈ answers, ∃ id, (Move.roots moves)[id]? = some (Path.absolute cwd a.1) ∧
        s.answer? id = some a.2) →
      ∃ answers' s', System.Answers h cwd (System.initial empty) answers' s' ∧
        answers'.map Prod.fst = answers.map Prod.fst ∧
        ResultsAlike (List.Forall₂ fun a b => a.1 = b.1 ∧ a.2.EqMap b.2)
          (Workplace.collect answers) (Workplace.collect answers')) := by
  intro h s
  have hu := hread.uniform hnames
  have hv := host_serves read n hmanifests
  have hI := Package.Memo.sound_nil name?
  have hf : System.Faithful (n.library read name?) files Eq (fun s : Session => s.memo.Sound name?)
    (Move.roots moves) s := System.Faithful.run hu hv hI hmoves
  have hrest : System.Rested (n.library read name?) files (fun s : Session => s.memo.Sound name?)
    (System.initial empty) := System.rested_initial hI
  refine ⟨fun id p answer hr ha => ?_, fun cwd answers ha => ?_⟩
  · obtain ⟨r, he, halike⟩ := hf.answer hr ha
    obtain ⟨enough, hn⟩ := hrest.exists_resolveAt hu hv (hmoves p (List.mem_of_getElem? hr)) he
    refine ⟨enough, fun fuel hfuel => ?_⟩
    obtain ⟨alone, s', hs, hmap⟩ := hn fuel hfuel
    exact ⟨alone, s', hs, halike.of_map_eq hmap⟩
  · obtain ⟨answers', s', hs, hall⟩ := hrest.exists_answers hu hv cwd fun a hmem => by
      obtain ⟨id, hr, ha⟩ := ha a hmem
      exact ⟨hmoves _ (List.mem_of_getElem? hr), hf.answer hr ha⟩
    exact ⟨answers', s', hs, map_fst_of_forall₂ hall, Workplace.collect_alike hall⟩

theorem run_answers_eq_alone_twoStylesheets :
    let name? := (FileTree.empty.put ["p", "package.json"] (.file "[\"ui\"]".toUTF8)).packageName? []
    let h := host (twoStylesheets ⟨"/p/a.css"⟩) namingBySpelling name?
    let s := (System.initial empty).run h twoMoves
    let a : Except Error FinishedMap := .ok ⟨0, ⟨[("a", "/p/a.css#a")]⟩⟩
    let b : Except Error FinishedMap := .ok ⟨1, ⟨[("b", "/p/b.css#b /p/a.css#a")]⟩⟩
    s.answer? 0 = some b ∧ s.answer? 1 = some a ∧
      (∃ enough, ∀ fuel ≥ enough, ∃ alone s',
        (System.initial empty).resolveAt h fuel ⟨"/p/b.css"⟩ = (some alone, s') ∧
          ResultsAlike FinishedMap.EqMap b alone) ∧
      ∃ answers' s', System.Answers h ⟨"/p"⟩ (System.initial empty) answers' s' ∧
        answers'.map Prod.fst = [⟨"a.css"⟩, ⟨"b.css"⟩] ∧
        ResultsAlike (List.Forall₂ fun a b => a.1 = b.1 ∧ a.2.EqMap b.2)
          (Workplace.collect [(⟨"a.css"⟩, a), (⟨"b.css"⟩, b)]) (Workplace.collect answers') := by
  intro name? h s a b
  have hb : s.answer? 0 = some b := by decide +kernel
  have ha : s.answer? 1 = some a := by decide +kernel
  obtain ⟨halone, hall⟩ := run_answers_eq_alone _ namingBySpelling name? twoPaths
    (fun _ _ hl => FileTree.packageName?_eq _ _ hl) (coherent_twoStylesheets _)
    (scopedName_eq_twoPaths _ _) twoMoves roots_twoMoves
  refine ⟨hb, ha, halone 0 _ _ rfl hb, hall ⟨"/p"⟩ [(⟨"a.css"⟩, a), (⟨"b.css"⟩, b)] ?_⟩
  intro x hx
  obtain rfl | rfl : x = (⟨"a.css"⟩, a) ∨ x = (⟨"b.css"⟩, b) := by simpa using hx
  · exact ⟨1, by decide +kernel, ha⟩
  · exact ⟨0, by decide +kernel, hb⟩

/-- Where two spellings of a path are named differently, or read differently, an answer can have the
names or the classes of another spelling than its own. -/
theorem run_answer_ne_alone :
    let named := host (twoStylesheets ⟨"/p//a.css"⟩) namingBySpelling fun _ => none
    let spelled := host (spelledStylesheets ⟨"/p//a.css"⟩) namingByClass fun _ => none
    let moves : List Move := [.start ⟨"/p/b.css"⟩, .step 0, .start ⟨"/p/a.css"⟩, .step 0, .step 1,
      .step 0, .step 1]
    (Move.roots moves)[1]? = some ⟨"/p/a.css"⟩ ∧
      ((System.initial empty).run named moves).answer? 1 =
        some (.ok ⟨0, ⟨[("a", "/p//a.css#a")]⟩⟩) ∧
      ((System.initial empty).resolveAt named 9 ⟨"/p/a.css"⟩).1 =
        some (.ok ⟨0, ⟨[("a", "/p/a.css#a")]⟩⟩) ∧
      ((System.initial empty).run spelled moves).answer? 1 =
        some (.ok ⟨0, ⟨[("/p//a.css", "/p//a.css")]⟩⟩) ∧
      ((System.initial empty).resolveAt spelled 9 ⟨"/p/a.css"⟩).1 =
        some (.ok ⟨0, ⟨[("/p/a.css", "/p/a.css")]⟩⟩) := by
  decide +kernel

end Session

end CssModules
