import CssModules.Naming.Generator
import CssModules.Proofs.Path.Parent

namespace CssModules

namespace Package

def Alike (a b : Option Package) : Prop :=
  a.map (fun k => (k.name, k.root.location)) = b.map fun k => (k.name, k.root.location)

theorem Alike.refl (a : Option Package) : Alike a a := rfl

theorem Alike.trans {a b c : Option Package} (h : Alike a b) (h' : Alike b c) : Alike a c :=
  Eq.trans h h'

variable {name? : Path → Option String} {memo : Memo} {d : Path} {ds : List Path}

theorem nearest_cons (name? : Path → Option String) (d : Path) (ds : List Path) :
    nearest name? (d :: ds) =
      match name? d with
      | some name => some ⟨name, d⟩
      | none => nearest name? ds := by
  rw [nearest, List.findSome?_cons]
  cases name? d <;> rfl

theorem alike_nearest (hn : ∀ d e : Path, d.location = e.location → name? d = name? e)
    {ds es : List Path} (h : ds.map Path.location = es.map Path.location) :
    Alike (nearest name? ds) (nearest name? es) := by
  induction ds generalizing es with
  | nil =>
    rw [List.map_nil, eq_comm, List.map_eq_nil_iff] at h
    rw [h]
    exact .refl _
  | cons d ds ih =>
    obtain ⟨e, es, rfl, he, hes⟩ := List.map_eq_cons_iff.1 h.symm
    rw [nearest_cons, nearest_cons, ← hn e d he]
    cases name? e with
    | none => exact ih hes.symm
    | some name => simp [Alike, he]

def seen (name? : Path → Option String) (d : Path) : Option Package :=
  nearest name? (d :: d.ancestors)

theorem alike_seen (hn : ∀ d e : Path, d.location = e.location → name? d = name? e) {e : Path}
    (h : d.location = e.location) : Alike (seen name? d) (seen name? e) :=
  alike_nearest hn (by simp [h, Path.map_location_ancestors h])

/-- What is remembered is what a walk would find. -/
def Memo.Sound (memo : Memo) (name? : Path → Option String) : Prop :=
  ∀ d known, memo.lookup d.location = some known → Alike known (seen name? d)

theorem Memo.sound_nil (name? : Path → Option String) : Memo.Sound [] name? := nofun

theorem Memo.Sound.walk (hm : memo.Sound name?) {p : Path} (hp : p.ancestors = ds) :
    Alike (memo.walk name? ds).2 (nearest name? ds) ∧
      ∀ d ∈ (memo.walk name? ds).1, Alike (memo.walk name? ds).2 (seen name? d) := by
  induction ds generalizing p with
  | nil => exact ⟨.refl _, nofun⟩
  | cons d ds ih =>
    have hd : d.ancestors = ds := Path.ancestors_of_eq_cons hp
    have hseen : seen name? d = nearest name? (d :: ds) := by rw [seen, hd]
    rw [Memo.walk]
    cases hk : memo.lookup d.location with
    | some known => exact ⟨hseen ▸ hm d known hk, nofun⟩
    | none =>
      rw [nearest_cons] at hseen ⊢
      cases hname : name? d with
      | some name =>
        rw [hname] at hseen
        refine ⟨.refl _, fun e he => ?_⟩
        obtain rfl := List.mem_singleton.1 he
        rw [hseen]
        exact .refl _
      | none =>
        rw [hname] at hseen
        obtain ⟨hfound, hvisited⟩ := ih hd
        refine ⟨hfound, fun e he => ?_⟩
        rcases List.mem_cons.1 he with rfl | he
        · rw [hseen]
          exact hfound
        · exact hvisited e he

theorem Memo.Sound.learn (hm : memo.Sound name?)
    (hn : ∀ d e : Path, d.location = e.location → name? d = name? e) {visited : List Path}
    {found : Option Package} (hv : ∀ d ∈ visited, Alike found (seen name? d)) :
    (memo.learn visited found).Sound name? := by
  intro d known hk
  rw [Memo.learn, List.lookup_append] at hk
  cases hl : (visited.map fun d => (d.location, found)).lookup d.location with
  | none =>
    rw [hl] at hk
    exact hm d known hk
  | some found' =>
    rw [hl] at hk
    cases hk
    obtain ⟨before, behind, hsplit, _⟩ := List.lookup_eq_some_iff.1 hl
    have hmem : (d.location, known) ∈ visited.map fun d => (d.location, found) := by
      rw [hsplit]
      exact List.mem_append_right _ (List.mem_cons_self ..)
    obtain ⟨e, he, heq⟩ := List.mem_map.1 hmem
    obtain ⟨hloc, rfl⟩ := Prod.mk.inj heq
    exact (hv e he).trans (alike_seen hn hloc)

theorem Memo.Sound.find (hm : memo.Sound name?)
    (hn : ∀ d e : Path, d.location = e.location → name? d = name? e) (p : Path) :
    Alike (memo.find name? p).1 (Package.find name? p) ∧ (memo.find name? p).2.Sound name? := by
  obtain ⟨hfound, hvisited⟩ := hm.walk (p := p) rfl
  exact ⟨hfound, hm.learn hn hvisited⟩

end Package

namespace Request

/-- Requests that see the stylesheet alike from their roots. -/
structure Alike (r r' : Request) : Prop where
  relativePath : r.relativePath = r'.relativePath
  localName : r.localName = r'.localName
  matchResource : r.matchResource = none ∧ r'.matchResource = none
  packageName : r.packageName = r'.packageName

theorem Alike.hashContent {r r' : Request} (h : r.Alike r') : r.hashContent = r'.hashContent := by
  rw [Request.hashContent, Request.hashContent, h.matchResource.1, h.matchResource.2,
    h.packageName, h.relativePath, h.localName]

theorem Alike.pathPart {r r' : Request} (h : r.Alike r') : r.pathPart = r'.pathPart := by
  funext segment
  unfold Request.pathPart
  rw [h.relativePath, h.packageName]

theorem Alike.interpolate {r r' : Request} (h : r.Alike r') (t : Template)
    (settings : HashSettings) : t.interpolate r settings = t.interpolate r' settings := by
  simp only [Template.interpolate, Expansion.expandHashes, Expansion.expandPaths, h.hashContent,
    h.pathPart]

end Request

namespace Naming

theorem request_alike (n : Naming) {a b : Option Package} (h : Package.Alike a b)
    (localName : String) (p : Path) : (n.request a localName p).Alike (n.request b localName p) := by
  cases a with
  | none =>
    cases b with
    | none => exact ⟨rfl, rfl, ⟨rfl, rfl⟩, rfl⟩
    | some b => cases h
  | some a =>
    cases b with
    | none => cases h
    | some b =>
      obtain ⟨hname, hroot⟩ := Prod.mk.inj (Option.some.inj h)
      exact ⟨Path.relativeTo_congr p hroot, rfl, ⟨rfl, rfl⟩, congrArg some hname⟩

theorem expand_congr {n n' : Naming} {package package' : Option Package} {localName : String}
    {p p' : Path}
    (h : (n.request package localName p).Alike (n'.request package' localName p'))
    (hhash : n.hash = n'.hash)
    (hcaptures : n.pathRegex.bind (·.captures p.text) = n'.pathRegex.bind (·.captures p'.text))
    (t : Template) : n.expand t package localName p = n'.expand t package' localName p' := by
  have hsome : package.isSome = package'.isSome := by
    have hname := congrArg Option.isSome h.packageName
    simpa [request] using hname
  rw [expand, expand, h.interpolate, hhash, hcaptures, hsome]

theorem identifier_congr (n : Naming) {a b : Option Package} (h : Package.Alike a b)
    (className : String) (p : Path) : n.identifier a className p = n.identifier b className p := by
  unfold identifier
  split
  · rfl
  · rw [expand_congr (n.request_alike h _ p) rfl rfl]

/-- A name does not depend on what is remembered of packages. -/
theorem generate_eq_scopedName (n : Naming) {name? : Path → Option String} {memo : Package.Memo}
    (hm : memo.Sound name?) (hn : ∀ d e : Path, d.location = e.location → name? d = name? e)
    (className : String) (p : Path) :
    (n.generate name? memo className p).1 = n.scopedName name? className p ∧
      (n.generate name? memo className p).2.Sound name? := by
  unfold generate scopedName
  split
  · obtain ⟨halike, hsound⟩ := hm.find hn p
    exact ⟨n.identifier_congr halike className p, hsound⟩
  · exact ⟨rfl, hm⟩

theorem generateEach_eq_map (n : Naming) {name? : Path → Option String} {memo : Package.Memo}
    (hm : memo.Sound name?) (hn : ∀ d e : Path, d.location = e.location → name? d = name? e)
    (requests : List (String × Path)) :
    (n.generateEach name? memo requests).1 =
      requests.map fun request => n.scopedName name? request.1 request.2 := by
  induction requests generalizing memo with
  | nil => rfl
  | cons request requests ih =>
    obtain ⟨hname, hsound⟩ := n.generate_eq_scopedName hm hn request.1 request.2
    rw [generateEach, List.map_cons, ← hname, ← ih hsound]

end Naming

end CssModules
