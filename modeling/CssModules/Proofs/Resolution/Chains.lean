import CssModules.Proofs.Resolution.Interleaving
import CssModules.Proofs.Resolution.Keys
import CssModules.Proofs.Resolution.Provenance

namespace CssModules

/-- A cycle of stylesheets: the last one is the first one, and no other one is there twice. -/
def IsLoop (cycle : List Path) : Prop :=
  ∃ p inner q, cycle = p :: inner ++ [q] ∧ p.location = q.location ∧
    ((p :: inner).map Path.location).Nodup

/-- Whether an error that tells a cycle tells a loop, unless it is what a stylesheet is read as. -/
def TellsLoop (read : Path → Except Error Stylesheet) (e : Error) : Prop :=
  ∀ cycle, e = .cyclicComposition cycle → IsLoop cycle ∨ ∃ p, read p = .error e

variable {read : Path → Except Error Stylesheet} {n : Naming} {name? : Path → Option String}
  {root p : Path}

theorem TellsLoop.blame {e : Error} (h : TellsLoop read e) (frames : List Frame) :
    TellsLoop read (Task.blame frames e) := by
  obtain hb | ⟨f, outer, c, missing, -, -, -, -, hb⟩ := Task.blame_cases frames e
  · rwa [hb]
  · rw [hb]
    intro cycle hc
    cases hc

namespace Task

variable {frames outer : List Frame} {e : Error}

abbrev Looping (read : Path → Except Error Stylesheet) (root : Path) : Control → List Frame → Prop :=
  Goes (fun _ _ => True) (fun _ _ _ => True) (fun _ => TellsLoop read) root

theorem composable_true : Composable (fun _ _ => True) (fun _ _ _ => True) :=
  ⟨fun _ => trivial, fun _ _ => trivial, fun _ _ _ => trivial⟩

theorem tells_true (chain : List Path) (p : Path) :
    Tells (fun _ _ => True) (fun _ _ _ => True) (fun _ => TellsLoop read) chain p where
  here _ _ _ h := nomatch h
  there _ _ _ _ h := nomatch h

theorem nodup_chain (hn : (places frames).Nodup) : ((chain frames).map Path.location).Nodup := by
  rw [chain, List.map_reverse, List.nodup_reverse, List.map_map]
  exact hn

theorem cycleError_isLoop {chain : List Path} (hn : (chain.map Path.location).Nodup)
    (hp : p.location ∈ chain.map Path.location) :
    ∃ cycle, cycleError chain p = .cyclicComposition cycle ∧ IsLoop cycle := by
  refine ⟨_, cycleError_of_mem hp, ?_⟩
  cases hd : chain.dropWhile fun q => !q.same p with
  | nil =>
    obtain ⟨q, hq, hl⟩ := List.mem_map.1 hp
    have hne := List.dropWhile_eq_nil_iff.1 hd q hq
    have hsame : q.same p = true := beq_iff_eq.2 hl
    rw [hsame] at hne
    cases hne
  | cons q inner =>
    have hsame := List.head_dropWhile_not (fun q => !q.same p) (l := chain) (by simp [hd])
    simp only [hd, List.head_cons, Bool.not_eq_false'] at hsame
    refine ⟨q, inner, p, rfl, beq_iff_eq.1 hsame, ?_⟩
    have hsuffix : q :: inner <:+ chain := hd ▸ List.dropWhile_suffix _
    exact hn.sublist (hsuffix.sublist.map _)

theorem looping_receive (hl : Linked (fun _ _ _ => True) root frames p) (finished : FinishedMap) :
    Looping read root (receive finished frames).1 (receive finished frames).2 := by
  apply goes_receive composable_true hl trivial
  intro f outer _ _
  exact tells_true _ _

theorem looping_fail (hl : Linked (fun _ _ _ => True) root frames p) (he : TellsLoop read e) :
    Looping read root (fail frames e).1 (fail frames e).2 :=
  goes_blame hl (he.blame frames)

theorem looping_enter (hl : Linked (fun _ _ _ => True) root frames p) (s : Session) :
    Looping read root (enter (Session.host read n name?) p frames s).1.1
      (enter (Session.host read n name?) p frames s).1.2 := by
  have hread : ((Session.host read n name?).parse p s).1 = read p := Session.parse_eq read p s
  unfold enter
  split
  · next e s' he =>
    rw [he] at hread
    apply Goes.release hl
    intro cycle hc
    exact .inr ⟨p, hread.symm⟩
  · exact goes_fold composable_true hl trivial (tells_true _ _)

end Task

namespace System

variable {s s' : System Session} {t : Task} {id : ResolutionId} {moves : List Move}

/-- Whether all other resolutions that have begun have their answers whenever one makes a step. -/
def RunsAlone {σ : Type} (h : Host σ) (state : σ) (moves : List Move) (id : ResolutionId) : Prop :=
  ∀ before, before ++ [.step id] <+: moves → ∀ id' t,
    ((initial state).run h before).task? id' = some t → id' ≠ id → ∃ answer, t.control = .done answer

theorem RunsAlone.of_prefix {σ : Type} {h : Host σ} {state : σ} {moves' : List Move}
    (ha : RunsAlone h state moves id) (hm : moves' <+: moves) : RunsAlone h state moves' id := by
  intro before hp
  exact ha before (hp.trans hm)

theorem runsAlone_of_roots (hr : (Move.roots moves).length ≤ 1) :
    RunsAlone (Session.host read n name?) .empty moves 0 := by
  intro before hp id' t ht hne
  have hs : Sourced (n.library read name?) TokenMap.SameKeys (fun _ => True) (Move.roots before)
      ((initial Session.empty).run (Session.host read n name?) before) :=
    Sourced.run (Session.host_serves_keys read n name?) trivial before
  have hfresh := ((consistent_initial Session.empty).run before).fresh ht
  have hroots : (Move.roots before).length ≤ (Move.roots moves).length := by
    have hprefix := ((List.prefix_append before _).trans hp).filterMap Move.root?
    exact hprefix.length_le
  rw [← hs.length] at hfresh
  have hzero := Nat.lt_one_iff.1 (hfresh.trans_le (hroots.trans hr))
  exact absurd hzero hne

theorem Act.looping (hact : Act (Session.host read n name?) s t s') (hs : s.Consistent)
    (ht : s.task? t.id = some t) (ho : ∀ {id' : ResolutionId} {t' : Task}, s.task? id' = some t' →
      id' ≠ t.id → ∃ answer, t'.control = .done answer)
    (hg : Task.Looping read root t.control t.frames) :
    ∃ t', s'.task? t.id = some t' ∧ Task.Looping read root t'.control t'.frames := by
  cases hact with
  | idle => exact ⟨t, ht, hg⟩
  | @enter p control frames state ha _ he =>
    have hT : Turn s _ t ⟨t.id, control, frames⟩ := turn_setTask ht rfl
    have hent : Task.Looping read root (Task.enter (Session.host read n name?) p t.frames s.state).1.1
        (Task.enter (Session.host read n name?) p t.frames s.state).1.2 :=
      Task.looping_enter (hg.linked ha) s.state
    rw [he] at hent
    exact ⟨_, hT.self, hent⟩
  | @hit p finished control frames ha _ hr =>
    have hT : Turn s _ t ⟨t.id, control, frames⟩ := turn_setTask ht rfl
    have hreceive : Task.Looping read root _ _ := Task.looping_receive (hg.linked ha) finished
    rw [hr] at hreceive
    exact ⟨_, hT.self, hreceive⟩
  | @refuse p owner control frames ha hslot _ hf =>
    have hT : Turn s _ t ⟨t.id, control, frames⟩ := turn_setTask ht rfl
    obtain rfl := owner_eq_of_others hs ho hslot
    obtain ⟨u, hu, hmem⟩ := hs.slot?_iff.1 hslot
    obtain rfl := Option.some.inj (ht.symm.trans hu)
    have hnodup := hs.nodup t.id
    rw [places_of_task? ht] at hnodup
    obtain ⟨cycle, hcycle, hloop⟩ := Task.cycleError_isLoop (p := p) (Task.nodup_chain hnodup)
      (Task.mem_places_iff.1 hmem)
    have htells : TellsLoop read (Task.cycleError (Task.chain t.frames) p) := by
      intro cycle' he
      obtain rfl := Error.cyclicComposition.inj (hcycle.symm.trans he)
      exact .inl hloop
    have hfail : Task.Looping read root _ _ := Task.looping_fail (hg.linked ha) htells
    rw [hf] at hfail
    exact ⟨_, hT.self, hfail⟩
  | @wait p _ ha =>
    have hT : Turn s _ t { t with control := .wait p false } := turn_setTask ht rfl
    exact ⟨_, hT.self, .wait (hg.linked ha)⟩
  | @complete map f outer control frames hc hfr hr =>
    have hT : Turn s _ t ⟨t.id, control, frames⟩ := turn_notify_setTask ht rfl
    rw [hc, hfr] at hg
    cases hg with
    | complete hl =>
      have hreceive : Task.Looping read root _ _ := Task.looping_receive hl ⟨s.finished, map⟩
      rw [hr] at hreceive
      exact ⟨_, hT.self, hreceive⟩
  | @release e f outer control frames hc hfr he =>
    have hT : Turn s _ t ⟨t.id, control, frames⟩ := turn_notify_setTask ht rfl
    rw [hc, hfr] at hg
    cases hg with
    | release hl htells =>
      have hfail : Task.Looping read root _ _ := Task.looping_fail hl htells
      rw [he] at hfail
      exact ⟨_, hT.self, hfail⟩

theorem RunsAlone.looping (h : RunsAlone (Session.host read n name?) .empty moves id) {t : Task}
    (ht : ((initial .empty).run (Session.host read n name?) moves).task? id = some t) :
    ∃ root, Task.Looping read root t.control t.frames := by
  induction moves using List.reverseRecOn generalizing t with
  | nil => cases ht
  | append_singleton moves move ih =>
    have hbefore {t : Task} := ih (h.of_prefix (List.prefix_append moves [move])) (t := t)
    rw [run_append, run_singleton] at ht
    obtain ⟨p, rfl, he⟩ | ⟨id', u, rfl, hu, hact⟩ | ⟨id', rfl, _, he⟩ | ⟨rfl, he⟩ :=
      perform_cases (Session.host read n name?) _ move
    · rw [he, task?_start] at ht
      split at ht
      · cases ht
        exact ⟨p, .claim .nil⟩
      · exact hbefore ht
    · obtain rfl := id_of_task? hu
      by_cases hid : u.id = id
      · subst hid
        obtain ⟨root, hg⟩ := hbefore hu
        have hs : ((initial Session.empty).run (Session.host read n name?) moves).Consistent :=
          (consistent_initial Session.empty).run moves
        have hothers := h moves List.prefix_rfl
        obtain ⟨u', hu', hg'⟩ := hact.looping hs hu (hothers _ _) hg
        obtain rfl := Option.some.inj (hu'.symm.trans ht)
        exact ⟨root, hg'⟩
      · obtain ⟨u', hid', hT⟩ := hact.turn hu
        obtain ⟨v, hv, rfl | rfl⟩ := hT.of_other (hid' ▸ Ne.symm hid) ht
        · exact hbefore hv
        · obtain ⟨root, hg⟩ := hbefore hv
          exact ⟨root, hg.notified⟩
    · rw [he] at ht
      exact hbefore ht
    · rw [he] at ht
      exact hbefore ht

end System

namespace Session

/-- In every run a failure of composing tells a chain of stylesheets that begins with the one that
was asked for and of which each composes from the next, with what has failed at its end; a cycle is
the last part of such a chain, and a loop if the resolution runs alone. -/
theorem run_error_chains (read : Path → Except Error Stylesheet) (n : Naming)
    (name? : Path → Option String) (moves : List Move) :
    let h := host read n name?
    let s := (System.initial empty).run h moves
    ∀ id root e, (Move.roots moves)[id]? = some root → s.answer? id = some (.error e) →
      (n.library read name?).Explains TokenMap.SameKeys root e ∧
        (System.RunsAlone h empty moves id → ∀ cycle, e = .cyclicComposition cycle →
          IsLoop cycle ∨ ∃ p, read p = .error e) := by
  intro h s id root e hr ha
  constructor
  · have hs : System.Sourced (n.library read name?) TokenMap.SameKeys (fun _ => True)
      (Move.roots moves) s := System.Sourced.run (host_serves_keys read n name?) trivial moves
    exact hs.error_answer hr ha
  · intro halone
    obtain ⟨frames, ht⟩ := System.answer?_eq_some_iff.1 ha
    obtain ⟨root, hg⟩ := halone.looping ht
    cases hg with
    | failed he => exact he

def eachOther (p : Path) : Except Error Stylesheet :=
  if p.same ⟨"/p/a.css"⟩ then .ok ⟨["a"], [⟨"a", ["b"], .file "./b.css" ⟨"/p/b.css"⟩⟩]⟩
  else .ok ⟨["b"], [⟨"b", ["a"], .file "./a.css" ⟨"/p/a.css"⟩⟩]⟩

theorem eachOther_ne_error (p : Path) (e : Error) : eachOther p ≠ .error e := by
  rw [eachOther]
  split <;> nofun

theorem run_error_chains_eachOther :
    let a : Path := ⟨"/p/a.css"⟩
    let b : Path := ⟨"/p/b.css"⟩
    let h := host eachOther namingByClass fun _ => none
    let lib := namingByClass.library eachOther fun _ => none
    let alone := .start a :: List.replicate 5 (.step 0)
    let beside := [.start a, .start b, .step 0, .step 1, .step 0, .step 1, .step 1]
    (((System.initial empty).run h alone).answer? 0 = some (.error (.cyclicComposition [a, b, a])) ∧
      System.RunsAlone h empty alone 0 ∧ IsLoop [a, b, a]) ∧
    ((System.initial empty).run h beside).answer? 1 = some (.error (.cyclicComposition [b, a])) ∧
      lib.Explains TokenMap.SameKeys b (.cyclicComposition [b, a]) := by
  intro a b h lib alone beside
  have ha : ((System.initial empty).run h alone).answer? 0 =
      some (.error (.cyclicComposition [a, b, a])) := by decide +kernel
  have hb : ((System.initial empty).run h beside).answer? 1 =
      some (.error (.cyclicComposition [b, a])) := by decide +kernel
  have halone : System.RunsAlone h empty alone 0 := System.runsAlone_of_roots (by decide)
  obtain ⟨-, hloop⟩ := run_error_chains eachOther namingByClass (fun _ => none) alone 0 a _ rfl ha
  obtain ⟨hexplains, -⟩ := run_error_chains eachOther namingByClass (fun _ => none) beside 1 b _ rfl hb
  rcases hloop halone _ rfl with hloop | ⟨p, hp⟩
  · exact ⟨⟨ha, halone, hloop⟩, hb, hexplains⟩
  · exact absurd hp (eachOther_ne_error p _)

end Session

end CssModules
