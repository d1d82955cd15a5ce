import CssModules.Proofs.Identifier.RoundTrip
import CssModules.Proofs.Resolution.Interleaving
import CssModules.Proofs.Resolution.Keys
import CssModules.Proofs.Resolution.Provenance

namespace CssModules

def Composition.respell (g : String → String) (c : Composition) : Composition :=
  ⟨g c.localAlias, c.tokens.map g, c.source⟩

def Stylesheet.respell (g : String → String) (sheet : Stylesheet) : Stylesheet :=
  ⟨sheet.localNames.map g, sheet.compositions.map (Composition.respell g)⟩

/-- A stylesheet with the texts that its classes stand for in place of their spellings. -/
def Stylesheet.plain (sheet : Stylesheet) : Stylesheet := sheet.respell Identifier.unescape

def Identifier.canonical (name : String) : String := escape (unescape name)

theorem Identifier.unescape_canonical (name : String) :
    unescape (canonical name) = unescape name := unescape_escape _

theorem Composition.respell_respell (f g : String → String) (c : Composition) :
    (c.respell g).respell f = c.respell (f ∘ g) := by
  simp [Composition.respell]

theorem Stylesheet.respell_respell (f g : String → String) (sheet : Stylesheet) :
    (sheet.respell g).respell f = sheet.respell (f ∘ g) := by
  simp [Stylesheet.respell, Function.comp_def, Composition.respell_respell]

theorem Stylesheet.respell_plain (sheet : Stylesheet) :
    sheet.plain.respell Identifier.escape = sheet.respell Identifier.canonical :=
  respell_respell _ _ sheet

def Frame.respell (g : String → String) (f : Frame) : Frame :=
  { f with
    pending := f.pending.map fun c => { c with localAlias := g c.localAlias, tokens := c.tokens.map g }
    rest := f.rest.map (Composition.respell g) }

namespace Task

def respellNext (g : String → String) (next : Control × List Frame) : Control × List Frame :=
  (next.1, next.2.map (Frame.respell g))

def respell (g : String → String) (t : Task) : Task := { t with frames := t.frames.map (.respell g) }

variable {g : String → String}

theorem chain_respell (g : String → String) (frames : List Frame) :
    chain (frames.map (.respell g)) = chain frames := by
  simp [chain, Function.comp_def, Frame.respell]

theorem notified_respell (t : Task) : t.notified.respell g = (t.respell g).notified := by
  unfold notified
  split
  · next hc => simp [respell, hc]
  · next hc =>
    split
    · next p notified hc' => exact absurd hc' (hc p notified)
    · rfl

theorem fail_respell (frames : List Frame) (e : Error) :
    fail (frames.map (.respell g)) e = respellNext g (fail frames e) := by
  cases frames with
  | nil => rfl
  | cons f outer =>
    have hb : blame ((f :: outer).map (.respell g)) e = blame (f :: outer) e := by
      rw [List.map_cons, blame.eq_def, ← List.map_cons, chain_respell, blame.eq_def]
      cases e with
      | stylesheetNotFound missing => cases hp : f.pending <;> simp [Frame.respell, hp]
      | _ => rfl
    simp only [List.map_cons] at hb
    simp only [List.map_cons, fail, hb, respellNext]

variable (hg : ∀ name, Identifier.unescape (g name) = Identifier.unescape name)

include hg

theorem map_unescape_map (names : List String) :
    (names.map g).map Identifier.unescape = names.map Identifier.unescape := by simp [hg]

theorem identifiersOf_respell (map : TokenMap) (target : Path) (chain : List Path)
    (names : List String) :
    identifiersOf map target chain (names.map g) = identifiersOf map target chain names := by
  induction names with
  | nil => rfl
  | cons name names ih =>
    cases hm : map.get? (Identifier.unescape name) with
    | none =>
      rw [List.map_cons, identifiersOf_cons_of_none _ (by rw [hg, hm]),
        identifiersOf_cons_of_none _ hm, hg]
    | some value =>
      rw [List.map_cons, identifiersOf_cons_of_some _ (by rw [hg, hm]),
        identifiersOf_cons_of_some _ hm, ih]

theorem fold_respell (p : Path) (outer : List Frame) (tokens : TokenMap)
    (rest : List Composition) :
    fold p (outer.map (.respell g)) tokens (rest.map (.respell g)) =
      respellNext g (fold p outer tokens rest) := by
  induction rest generalizing tokens with
  | nil => rfl
  | cons c rest ih =>
    obtain ⟨localAlias, names, source⟩ := c
    cases source with
    | everywhere =>
      simp only [List.map_cons, Composition.respell, fold, hg, map_unescape_map hg]
      exact ih _
    | here =>
      simp only [List.map_cons, Composition.respell, fold, hg, identifiersOf_respell hg,
        chain_respell]
      split
      · exact ih _
      · rfl
    | file specifier target => rfl

theorem receive_respell (finished : FinishedMap) (frames : List Frame) :
    receive finished (frames.map (.respell g)) = respellNext g (receive finished frames) := by
  cases frames with
  | nil => rfl
  | cons f outer =>
    obtain ⟨p, tokens, pending, rest⟩ := f
    cases pending with
    | none => exact fold_respell hg p outer tokens rest
    | some c =>
      have hchain := chain_respell g (⟨p, tokens, some c, rest⟩ :: outer)
      rw [List.map_cons] at hchain
      simp only [Frame.respell, Option.map_some] at hchain
      simp only [List.map_cons, Frame.respell, receive, Option.map_some,
        identifiersOf_respell hg, hchain, hg]
      split
      · exact fold_respell hg p outer _ rest
      · rfl

end Task

/-- A host that reads stylesheets with their classes spelled anew, and names them all the same. -/
structure Host.Respells {σ : Type} (h' h : Host σ) (g : String → String) : Prop where
  parse (p : Path) (s : σ) : h'.parse p s = ((h.parse p s).1.map (.respell g), (h.parse p s).2)
  name (className : String) (p : Path) (s : σ) : h'.name (g className) p s = h.name className p s
  released : h'.released = h.released

variable {σ : Type} {h h' : Host σ} {g : String → String}

namespace Host.Respells

variable (hh : h'.Respells h g) (hg : ∀ name, Identifier.unescape (g name) = Identifier.unescape name)

include hh hg

theorem declare (p : Path) (names : List String) (tokens : TokenMap) (s : σ) :
    Task.declare h' p (names.map g) tokens s = Task.declare h p names tokens s := by
  induction names generalizing tokens s with
  | nil => rfl
  | cons name names ih =>
    rw [List.map_cons, Task.declare, Task.declare, hg, hh.name]
    split
    · exact ih _ _
    · exact ih _ _

theorem enter (p : Path) (outer : List Frame) (s : σ) :
    Task.enter h' p (outer.map (.respell g)) s =
      (Task.respellNext g (Task.enter h p outer s).1, (Task.enter h p outer s).2) := by
  rw [Task.enter, Task.enter, hh.parse]
  obtain ⟨_ | sheet, s'⟩ := h.parse p s
  · rfl
  · simp only [Except.map, Stylesheet.respell, hh.declare hg, Task.fold_respell hg]

end Host.Respells

namespace System

def respell (g : String → String) (s : System σ) : System σ :=
  { s with tasks := s.tasks.map (Task.respell g) }

theorem task?_respell (s : System σ) (id : ResolutionId) :
    (s.respell g).task? id = (s.task? id).map (Task.respell g) :=
  task?_map s (Task.respell g) (fun _ => rfl) id

theorem answer?_respell (s : System σ) (id : ResolutionId) :
    (s.respell g).answer? id = s.answer? id := by
  rw [answer?, task?_respell, Option.map_map, answer?]
  rfl

theorem setTask_respell (s : System σ) (t : Task) :
    (s.setTask t).respell g = (s.respell g).setTask (t.respell g) := by
  simp only [respell, setTask, List.map_map]
  congr 1
  refine List.map_congr_left fun u _ => ?_
  by_cases he : u.id = t.id <;> simp [Task.respell, he]

theorem notify_respell (s : System σ) : s.notify.respell g = (s.respell g).notify := by
  simp only [respell, notify, List.map_map]
  congr 1
  exact List.map_congr_left fun u _ => u.notified_respell

variable (hh : h'.Respells h g) (hg : ∀ name, Identifier.unescape (g name) = Identifier.unescape name)

include hh hg

theorem claim_respell (s : System σ) (t : Task) (p : Path) :
    (s.claim h t p).respell g = (s.respell g).claim h' (t.respell g) p := by
  have hcache : (s.respell g).cache = s.cache := rfl
  unfold claim
  rw [hcache]
  cases s.cache.slot? p.location with
  | none =>
    have he := hh.enter hg p t.frames s.state
    simp only [Task.respell, respell, he, Task.respellNext]
    exact setTask_respell _ _
  | some slot =>
    cases slot with
    | ready finished =>
      simp only [Task.respell, Task.receive_respell hg, Task.respellNext]
      exact setTask_respell _ _
    | inProgress owner =>
      simp only [Task.respell, Task.chain_respell, Task.fail_respell, Task.respellNext]
      split
      · exact setTask_respell _ _
      · exact setTask_respell _ _

theorem stepTask_respell (s : System σ) (t : Task) :
    (s.stepTask h t).respell g = (s.respell g).stepTask h' (t.respell g) := by
  obtain ⟨id, control, frames⟩ := t
  cases control with
  | done answer => rfl
  | claim p => exact claim_respell hh hg s _ p
  | wait p notified => exact claim_respell hh hg { s with cache := s.cache.wake id } _ p
  | complete map =>
    cases frames with
    | nil => rfl
    | cons f outer =>
      simp only [stepTask, Task.respell, List.map_cons, Task.receive_respell hg, Task.respellNext]
      exact (setTask_respell _ _).trans (congrArg (setTask · _) (notify_respell _))
  | release e =>
    cases frames with
    | nil => rfl
    | cons f outer =>
      simp only [stepTask, Task.respell, List.map_cons, Task.fail_respell, Task.respellNext,
        hh.released]
      exact (setTask_respell _ _).trans (congrArg (setTask · _) (notify_respell _))

theorem perform_respell (s : System σ) (move : Move) :
    (s.perform h move).respell g = (s.respell g).perform h' move := by
  cases move with
  | start p =>
    simp [perform, start, respell, freshId, Task.respell]
  | clear => rfl
  | step id =>
    simp only [perform, step, task?_respell]
    cases s.task? id with
    | none => rfl
    | some t => exact stepTask_respell hh hg s t

/-- A run of stylesheets that are spelled anew is the run of the stylesheets, spelled anew. -/
theorem run_respell (s : System σ) (moves : List Move) :
    (s.run h moves).respell g = (s.respell g).run h' moves := by
  induction moves generalizing s with
  | nil => rfl
  | cons move moves ih =>
    change ((s.perform h move).run h moves).respell g = ((s.respell g).perform h' move).run h' moves
    rw [ih, perform_respell hh hg]

theorem resolve_respell (s : System σ) (fuel : ℕ) (cwd p : Path) :
    (s.respell g).resolve h' fuel cwd p =
      ((s.resolve h fuel cwd p).1, (s.resolve h fuel cwd p).2.respell g) := by
  have hid : (s.respell g).freshId = s.freshId := by simp [freshId, respell]
  have hs : (s.respell g).start s.freshId (Path.absolute cwd p) =
      (s.start s.freshId (Path.absolute cwd p)).respell g := rfl
  simp only [resolve, resolveAt, hid, hs, runAlone_eq_run, ← run_respell hh hg, answer?_respell]

end System

namespace Naming

theorem identifier_template (t : Template) (hash : HashSettings) (root : Path)
    (regex : Option Regex.Matcher) (package : Option Package) {className className' : String}
    (hc : Identifier.unescape className = Identifier.unescape className') (p : Path) :
    (⟨.template t, hash, root, regex⟩ : Naming).identifier package className p =
      (⟨.template t, hash, root, regex⟩ : Naming).identifier package className' p := by
  simp only [identifier, hc]

end Naming

namespace TokenMap

theorem nodup_keys_declared (lib : Library) (p : Path) (names : List String) :
    (lib.declared p names).keys.Nodup := by
  have hfold (m : TokenMap) (hm : m.keys.Nodup) : (names.foldl (fun tokens name =>
      tokens.insert (Identifier.unescape name) (lib.name name p)) m).keys.Nodup := by
    induction names generalizing m with
    | nil => exact hm
    | cons name names ih =>
      refine ih _ ?_
      rw [keys_insert]
      exact nodup_keys_append hm _
  exact hfold .empty List.nodup_nil

end TokenMap

def Goal.Distinct : Goal → Prop
  | .request _ => True
  | .compose _ tokens _ => tokens.keys.Nodup

theorem Library.Yields.nodup_keys {lib : Library} {goal : Goal} {m : TokenMap}
    (h : lib.Yields TokenMap.SameKeys goal m) (hg : goal.Distinct) : m.keys.Nodup := by
  induction h with
  | @request p sheet _ _ _ hd _ ih =>
    refine ih ?_
    rw [Goal.Distinct, show _ = _ from hd]
    exact TokenMap.nodup_keys_declared lib p sheet.localNames
  | finished => exact hg
  | everywhere _ ih =>
    refine ih ?_
    rw [Goal.Distinct, TokenMap.keys_compose]
    exact TokenMap.nodup_keys_append hg _
  | here _ _ ih =>
    refine ih ?_
    rw [Goal.Distinct, TokenMap.keys_compose]
    exact TokenMap.nodup_keys_append hg _
  | file _ _ _ _ _ ih =>
    refine ih ?_
    rw [Goal.Distinct, TokenMap.keys_compose]
    exact TokenMap.nodup_keys_append hg _

namespace Session

variable {read : Path → Except Error Stylesheet} {name? : Path → Option String}

theorem generate_congr {n : Naming} {className className' : String} {p : Path}
    (hc : ∀ package, n.identifier package className p = n.identifier package className' p)
    (s : Session) : generate n name? className p s = generate n name? className' p s := by
  simp only [generate, hc]

theorem host_respells (t : Template) (hash : HashSettings) (root : Path)
    (regex : Option Regex.Matcher) {g : String → String}
    (hg : ∀ name, Identifier.unescape (g name) = Identifier.unescape name) :
    (host (fun p => (read p).map (Stylesheet.respell g)) ⟨.template t, hash, root, regex⟩ name?).Respells
      (host read ⟨.template t, hash, root, regex⟩ name?) g where
  parse p s := by
    simp only [host, parse]
    cases read p with
    | error e => rfl
    | ok sheet => simp [Except.map, Stylesheet.respell]
  name className p s :=
    generate_congr (fun package => Naming.identifier_template t hash root regex package (hg _) p) s
  released := rfl

/-- With every class, alias and token of the stylesheets spelled in any other way that stands for
the same text, every run has the same answers and the same cache, and so has every resolution after
it. No map has two entries for one class. -/
theorem run_spelling_independent (t : Template) (hash : HashSettings) (root : Path)
    (regex : Option Regex.Matcher) (name? : Path → Option String)
    (read read' : Path → Except Error Stylesheet)
    (hread : ∀ p, (read p).map Stylesheet.plain = (read' p).map Stylesheet.plain)
    (moves : List Move) :
    let n : Naming := ⟨.template t, hash, root, regex⟩
    let h := host read n name?
    let h' := host read' n name?
    let s := (System.initial empty).run h moves
    let s' := (System.initial empty).run h' moves
    (∀ id, s.answer? id = s'.answer? id) ∧ s.cache = s'.cache ∧
      (∀ fuel cwd p, (s.resolve h fuel cwd p).1 = (s'.resolve h' fuel cwd p).1) ∧
      (∀ id finished, s.answer? id = some (.ok finished) → finished.map.keys.Nodup) ∧
      (∀ className className' p session,
        Identifier.unescape className = Identifier.unescape className' →
        generate n name? className p session = generate n name? className' p session) ∧
      (∀ className p session, generate n name? className p session =
        generate n name? (Identifier.escape (Identifier.unescape className)) p session) := by
  intro n h h' s s'
  -- Neither spelling need be a function of the other, so both runs go over to the canonical one.
  have hg := Identifier.unescape_canonical
  have hcanonical : (fun p => (read p).map (Stylesheet.respell Identifier.canonical)) =
      fun p => (read' p).map (Stylesheet.respell Identifier.canonical) := by
    funext p
    have hescaped (r : Except Error Stylesheet) :
        r.map (Stylesheet.respell Identifier.canonical) =
          (r.map Stylesheet.plain).map (Stylesheet.respell Identifier.escape) := by
      cases r with
      | error e => simp only [Except.map]
      | ok sheet => simp only [Except.map, sheet.respell_plain]
    rw [hescaped, hescaped, hread]
  have hh : (host (fun p => (read p).map (Stylesheet.respell Identifier.canonical)) n name?).Respells h
    Identifier.canonical := host_respells t hash root regex hg
  have hh' : (host (fun p => (read p).map (Stylesheet.respell Identifier.canonical)) n name?).Respells h'
    Identifier.canonical := by
    rw [hcanonical]
    exact host_respells t hash root regex hg
  have hs : s.respell Identifier.canonical = s'.respell Identifier.canonical :=
    (System.run_respell hh hg _ moves).trans (System.run_respell hh' hg _ moves).symm
  have hcache : (s.respell Identifier.canonical).cache = (s'.respell Identifier.canonical).cache :=
    congrArg System.cache hs
  have hname (className className' : String) (p : Path) (session : Session)
      (hc : Identifier.unescape className = Identifier.unescape className') :
      generate n name? className p session = generate n name? className' p session :=
    generate_congr (fun package => Naming.identifier_template t hash root regex package hc p) session
  refine ⟨fun id => ?_, hcache, fun fuel cwd p => ?_, fun id finished ha => ?_,
    hname, fun className p session => hname _ _ p session (hg className).symm⟩
  · rw [← s.answer?_respell (g := Identifier.canonical), hs, System.answer?_respell]
  · have hr := System.resolve_respell hh hg s fuel cwd p
    rw [hs, System.resolve_respell hh' hg] at hr
    exact (congrArg Prod.fst hr).symm
  · obtain ⟨frames, ht⟩ := System.answer?_eq_some_iff.1 ha
    have hsourced : System.Sourced (n.library read name?) TokenMap.SameKeys (fun _ => True)
      (Move.roots moves) s := System.Sourced.run (host_serves_keys read n name?) trivial moves
    obtain ⟨root, hr, _⟩ := hsourced.task ht
    obtain ⟨q, _, hq⟩ := hsourced.answer hr ha
    exact hq.nodup_keys trivial

theorem run_spelling_independent_twoStylesheets :
    let spelled : Path → Except Error Stylesheet :=
      stylesheetsWith (fun p => if p = ⟨"/p/a.css"⟩ then ["\\61"] else ["\\000061 "]) ⟨"/p/./a.css"⟩
    let n : Naming := ⟨.template ⟨"[local]", [.localName]⟩, namingByClass.hash, ⟨"/p"⟩, none⟩
    let h := host (twoStylesheets ⟨"/p/./a.css"⟩) n fun _ => none
    let h' := host spelled n fun _ => none
    let s := (System.initial empty).run h twoMoves
    let s' := (System.initial empty).run h' twoMoves
    (∀ p, (twoStylesheets ⟨"/p/./a.css"⟩ p).map Stylesheet.plain =
        (spelled p).map Stylesheet.plain) ∧
      s.answer? 0 = some (.ok ⟨1, ⟨[("b", "b a")]⟩⟩) ∧
      s'.answer? 0 = some (.ok ⟨1, ⟨[("b", "b a")]⟩⟩) ∧ s.cache = s'.cache := by
  intro spelled n h h' s s'
  have hread (p : Path) : (twoStylesheets ⟨"/p/./a.css"⟩ p).map Stylesheet.plain =
      (spelled p).map Stylesheet.plain := by
    simp only [twoStylesheets, spelled, stylesheetsWith]
    split
    · split <;> decide +kernel
    · split
      · decide +kernel
      · rfl
  obtain ⟨hanswer, hcache, _⟩ := run_spelling_independent ⟨"[local]", [.localName]⟩
    namingByClass.hash ⟨"/p"⟩ none (fun _ => none) _ spelled hread twoMoves
  have ha : s.answer? 0 = some (.ok ⟨1, ⟨[("b", "b a")]⟩⟩) := by decide +kernel
  exact ⟨hread, ha, (hanswer 0).symm.trans ha, hcache⟩

end Session

end CssModules
