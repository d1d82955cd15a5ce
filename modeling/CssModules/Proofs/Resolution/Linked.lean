import CssModules.Proofs.Resolution.Stack

namespace CssModules

def Pending.composition (c : Pending) : Composition :=
  ⟨c.localAlias, c.tokens, .file c.specifier c.target⟩

/-- Something about a stylesheet with its map so far and the compositions that are left, which every
composition keeps that finds its identifiers. `Has` says which maps other stylesheets can have. -/
structure Composable (Has : Path → TokenMap → Prop)
    (Going : Path → TokenMap → List Composition → Prop) : Prop where
  everywhere {p : Path} {tokens : TokenMap} {localAlias : String} {names : List String}
    {rest : List Composition} : Going p tokens (⟨localAlias, names, .everywhere⟩ :: rest) →
    Going p (tokens.compose (Identifier.unescape localAlias) (names.map Identifier.unescape)) rest
  here {p : Path} {tokens : TokenMap} {localAlias : String} {names identifiers : List String}
    {rest : List Composition} : Going p tokens (⟨localAlias, names, .here⟩ :: rest) →
    tokens.identifiers? names = some identifiers →
    Going p (tokens.compose (Identifier.unescape localAlias) identifiers) rest
  file {p q : Path} {tokens map : TokenMap} {localAlias specifier : String}
    {names identifiers : List String} {rest : List Composition} :
    Going p tokens (⟨localAlias, names, .file specifier q⟩ :: rest) → Has q map →
    map.identifiers? names = some identifiers →
    Going p (tokens.compose (Identifier.unescape localAlias) identifiers) rest

namespace Task

/-- Frames of which the outermost is that of `root`, and each waits for the next inner one, the
innermost for a stylesheet that it asks for. -/
inductive Linked (Going : Path → TokenMap → List Composition → Prop) (root : Path) :
    List Frame → Path → Prop
  | nil : Linked Going root [] root
  | cons {f outer c} (hl : Linked Going root outer f.path) (hp : f.pending = some c)
      (hg : Going f.path f.tokens (c.composition :: f.rest)) : Linked Going root (f :: outer) c.target

/-- What a task can do next that began with `root`, inside of linked frames. `Fails` says how
stylesheets can fail. -/
inductive Goes (Has : Path → TokenMap → Prop) (Going : Path → TokenMap → List Composition → Prop)
    (Fails : Path → Error → Prop) (root : Path) : Control → List Frame → Prop
  | claim {p frames} (hl : Linked Going root frames p) : Goes Has Going Fails root (.claim p) frames
  | wait {p notified frames} (hl : Linked Going root frames p) :
      Goes Has Going Fails root (.wait p notified) frames
  | complete {map f outer} (hl : Linked Going root outer f.path) (hg : Going f.path map []) :
      Goes Has Going Fails root (.complete map) (f :: outer)
  | release {e f outer} (hl : Linked Going root outer f.path) (he : Fails f.path e) :
      Goes Has Going Fails root (.release e) (f :: outer)
  | finished {finished : FinishedMap} (hm : Has root finished.map) :
      Goes Has Going Fails root (.done (.ok finished)) []
  | failed {e} (he : Fails root e) : Goes Has Going Fails root (.done (.error e)) []

variable {Has : Path → TokenMap → Prop} {Going Going' : Path → TokenMap → List Composition → Prop}
  {Fails : Path → Error → Prop} {root p : Path} {frames outer : List Frame} {control : Control}

theorem Linked.mono (hl : Linked Going root frames p)
    (hg : ∀ p tokens rest, Going p tokens rest → Going' p tokens rest) :
    Linked Going' root frames p := by
  induction hl with
  | nil => exact .nil
  | cons _ hp hgo ih => exact .cons ih hp (hg _ _ _ hgo)

theorem Goes.linked (hg : Goes Has Going Fails root control frames)
    (hc : control.request? = some p) : Linked Going root frames p := by
  cases hg with
  | claim hl => exact Option.some.inj hc ▸ hl
  | wait hl => exact Option.some.inj hc ▸ hl
  | complete => cases hc
  | release => cases hc
  | finished => cases hc
  | failed => cases hc

theorem Goes.notified {t : Task} (hg : Goes Has Going Fails root t.control t.frames) :
    Goes Has Going Fails root t.notified.control t.notified.frames := by
  unfold Task.notified
  split
  · next hc => exact .wait (hg.linked (by rw [hc]; rfl))
  · exact hg

/-- Failures that tell what a map does not have, inside of a chain that ends with the stylesheet
whose composition it is: its own map so far, or the one of another stylesheet. -/
structure Tells (Has : Path → TokenMap → Prop) (Going : Path → TokenMap → List Composition → Prop)
    (Fails : Path → Error → Prop) (chain : List Path) (p : Path) : Prop where
  here {tokens : TokenMap} {localAlias token : String} {names : List String}
    {rest : List Composition} : Going p tokens (⟨localAlias, names, .here⟩ :: rest) →
    tokens.missing? names = some token → Fails p (.unknownComposedToken token p chain)
  there {tokens : TokenMap} {c : Pending} {rest : List Composition} {map : TokenMap}
    {token : String} : Going p tokens (c.composition :: rest) → Has c.target map →
    map.missing? c.tokens = some token → Fails p (.unknownComposedToken token c.target chain)

theorem goes_fold (hc : Composable Has Going) (hl : Linked Going root outer p) {tokens : TokenMap}
    {rest : List Composition} (hg : Going p tokens rest)
    (he : Tells Has Going Fails (chain outer ++ [p]) p) :
    Goes Has Going Fails root (fold p outer tokens rest).1 (fold p outer tokens rest).2 := by
  induction rest generalizing tokens with
  | nil => exact .complete hl hg
  | cons c rest ih =>
    obtain ⟨localAlias, names, source⟩ := c
    cases source with
    | everywhere =>
      simp only [fold]
      exact ih (hc.everywhere hg)
    | here =>
      cases hm : tokens.missing? names with
      | some token =>
        simp only [fold, identifiersOf_of_missing? hm]
        exact .release hl (he.here hg hm)
      | none =>
        obtain ⟨identifiers, hi⟩ := TokenMap.identifiers?_of_missing?_eq_none hm
        simp only [fold, identifiersOf_of_identifiers? hi]
        exact ih (hc.here hg hi)
    | file specifier target =>
      exact .claim (.cons (c := ⟨localAlias, names, specifier, target⟩) hl rfl hg)

theorem goes_receive {finished : FinishedMap} (hc : Composable Has Going)
    (hl : Linked Going root frames p) (hm : Has p finished.map)
    (he : ∀ f outer, frames = f :: outer → Linked Going root outer f.path →
      Tells Has Going Fails (chain outer ++ [f.path]) f.path) :
    Goes Has Going Fails root (receive finished frames).1 (receive finished frames).2 := by
  cases hl with
  | nil => exact .finished hm
  | @cons f outer c hl hp hg =>
    have htells := he f outer rfl hl
    cases hmiss : finished.map.missing? c.tokens with
    | some token =>
      simp only [receive, hp, identifiersOf_of_missing? hmiss, chain_cons]
      exact .release (f := { f with pending := none }) hl (htells.there hg hm hmiss)
    | none =>
      obtain ⟨identifiers, hi⟩ := TokenMap.identifiers?_of_missing?_eq_none hmiss
      simp only [receive, hp, identifiersOf_of_identifiers? hi]
      exact goes_fold hc hl (hc.file hg hm hi) htells

theorem goes_fail {e : Error} (hl : Linked Going root frames p) (hnil : frames = [] → Fails p e)
    (hcons : ∀ f outer, frames = f :: outer → Fails f.path (blame frames e)) :
    Goes Has Going Fails root (fail frames e).1 (fail frames e).2 := by
  cases hl with
  | nil => exact .failed (hnil rfl)
  | cons hl => exact .release hl (hcons _ _ rfl)

theorem goes_blame {Fails : Error → Prop} {e : Error} (hl : Linked Going root frames p)
    (he : Fails (blame frames e)) :
    Goes Has Going (fun _ => Fails) root (fail frames e).1 (fail frames e).2 := by
  refine goes_fail hl (fun hnil => ?_) fun _ _ _ => he
  rwa [hnil] at he

end Task

end CssModules
