import CssModules.Regex.Parse
import CssModules.Template.Expansion
import Mathlib.Data.List.Basic

namespace CssModules

/-- What a segment of a template stands for, by itself. -/
def Segment.meaning (r : Request) (settings : HashSettings) (name : String)
    (groups : Option Captures) : Segment → String
  | .literal text => text
  | .hash o =>
    let spec : Digest.Spec := {
      algorithm := o.algorithm.getD settings.defaults.algorithm
      encoding := o.encoding.getD settings.defaults.encoding
      length := o.length.or settings.defaults.length }
    settings.mode.apply spec r.hashContent.toUTF8.toList settings.saltBytes
  | .localName => name
  | .capture n =>
    match groups.bind (·[n]?) with
    | some took => took.getD ""
    | none => "[" ++ toString n ++ "]"
  | s => (r.pathPart s).getD ""

def Digests.Right (made : Digests) (settings : HashSettings) (content : String) : Prop :=
  ∀ spec text, made.lookup spec = some text → text = settings.digest content spec

theorem Digests.right_nil (settings : HashSettings) (content : String) :
    Digests.Right [] settings content := by
  intro spec text h
  cases h

theorem Digests.Right.recall {made : Digests} {settings : HashSettings} {content : String}
    (h : made.Right settings content) (spec : Digest.Spec) :
    (made.recall settings content spec).1 = settings.digest content spec ∧
      (made.recall settings content spec).2.Right settings content := by
  rw [Digests.recall]
  cases hl : made.lookup spec with
  | some text => exact ⟨h spec text hl, h⟩
  | none =>
    refine ⟨rfl, ?_⟩
    intro spec' text' h'
    rw [List.lookup_cons] at h'
    split at h'
    · next he =>
      cases h'
      rw [beq_iff_eq.1 he]
    · exact h spec' text' h'

namespace Expansion

/-- A pass that finishes an expansion. -/
inductive Pass where
  | localName
  | captures
  deriving DecidableEq, Repr

def pass (name : String) (groups : Option Captures) (e : Expansion) : Pass → Expansion
  | .localName => e.substituteLocal name
  | .captures => e.substituteCaptures groups

def Pass.text? (name : String) (groups : Option Captures) : Pass → Segment → Option String
  | .localName, .localName => some name
  | .captures, .capture n => (groups.bind (·[n]?)).map (·.getD "")
  | _, _ => none

def hashText? (r : Request) (settings : HashSettings) : Segment → Option String
  | .hash o => some (settings.expand o r.hashContent)
  | _ => none

variable {r : Request} {settings : HashSettings} {name : String} {groups : Option Captures}

theorem replace_congr (e : Expansion) {f g : Segment → Option String} (h : ∀ s, f s = g s) :
    e.replace f = e.replace g := by
  rw [funext h]

theorem replace_none (e : Expansion) : e.replace (fun _ => none) = e := by
  rw [replace, List.map_id']

theorem pass_eq_replace (e : Expansion) (k : Pass) :
    e.pass name groups k = e.replace (k.text? name groups) := by
  cases k with
  | localName => exact e.replace_congr fun s => by cases s <;> rfl
  | captures =>
    cases groups with
    | none =>
      have hnone : e.replace (Pass.text? name none .captures) = e.replace fun _ => none :=
        e.replace_congr fun s => by cases s <;> rfl
      rw [hnone, replace_none, pass, substituteCaptures.eq_def]
    | some groups => exact e.replace_congr fun s => by cases s <;> rfl

theorem replaceHashes_eq (content : String) {made : Digests} (h : made.Right settings content)
    (segments : List Segment) :
    replaceHashes settings content made segments = segments.map fun
      | .hash o => .literal (settings.expand o content)
      | s => s := by
  induction segments generalizing made with
  | nil => rfl
  | cons s segments ih =>
    cases s with
    | hash o =>
      obtain ⟨htext, hmade⟩ := h.recall (o.resolve settings.defaults)
      rw [replaceHashes, List.map_cons]
      dsimp only
      rw [htext, ih hmade, HashSettings.expand]
    | _ =>
      rw [replaceHashes, List.map_cons, ih h]
      intro o he
      cases he

theorem expandHashes_eq_replace (e : Expansion) (r : Request) (settings : HashSettings) :
    e.expandHashes r settings = e.replace (hashText? r settings) := by
  rw [expandHashes, replaceHashes_eq _ (Digests.right_nil settings _), replace]
  congr 2
  funext s
  cases s <;> rfl

theorem foldl_replace {fs : List (Segment → Option String)}
    (h : ∀ f ∈ fs, ∀ text, f (.literal text) = none) (e : Expansion) :
    fs.foldl replace e = e.replace fun s => fs.findSome? (· s) := by
  induction fs generalizing e with
  | nil => exact (replace_none e).symm
  | cons f fs ih =>
    obtain ⟨hf, hfs⟩ := List.forall_mem_cons.1 h
    have hliteral (text : String) : fs.findSome? (· (.literal text)) = none :=
      List.findSome?_eq_none_iff.2 fun g hg => hfs g hg text
    rw [List.foldl_cons, ih hfs, replace, replace, replace, List.map_map]
    congr 2
    funext s
    rw [Function.comp_apply, List.findSome?_cons]
    cases f s with
    | none => rfl
    | some text => rw [hliteral]

theorem findSome?_of_agree {fs : List (Segment → Option String)} {s : Segment} {v : Option String}
    (h : ∀ f ∈ fs, f s = none ∨ f s = v) (hv : ∃ f ∈ fs, f s = v) : fs.findSome? (· s) = v := by
  cases v with
  | none =>
    rw [List.findSome?_eq_none_iff]
    intro f hf
    exact (h f hf).elim id id
  | some text =>
    obtain ⟨f, hf, hs⟩ := hv
    cases hfind : fs.findSome? (· s) with
    | none =>
      rw [List.findSome?_eq_none_iff.1 hfind f hf] at hs
      cases hs
    | some text' =>
      obtain ⟨g, hg, hs'⟩ := List.exists_of_findSome?_eq_some hfind
      rcases h g hg with hn | hn
      · rw [hn] at hs'
        cases hs'
      · rw [← hs', hn]

theorem findSome?_passes {passes : List Pass} (hname : .localName ∈ passes)
    (hcaptures : .captures ∈ passes) (s : Segment) :
    (passes.map (Pass.text? name groups)).findSome? (· s) =
      match s with
      | .localName => some name
      | .capture n => (groups.bind (·[n]?)).map (·.getD "")
      | _ => none := by
  apply findSome?_of_agree
  · intro f hf
    obtain ⟨k, -, rfl⟩ := List.mem_map.1 hf
    cases k <;> cases s <;> simp [Pass.text?]
  · have hlocal : Pass.text? name groups .localName ∈ passes.map (Pass.text? name groups) :=
      List.mem_map_of_mem hname
    have hgroups : Pass.text? name groups .captures ∈ passes.map (Pass.text? name groups) :=
      List.mem_map_of_mem hcaptures
    cases s with
    | capture n => exact ⟨_, hgroups, rfl⟩
    | _ => exact ⟨_, hlocal, rfl⟩

theorem render_replace (e : Expansion) (f : Segment → Option String) :
    (e.replace f).render = String.join (e.segments.map fun s => (f s).getD s.render) := by
  rw [render, replace, List.map_map]
  congr 2
  funext s
  rw [Function.comp_apply]
  cases f s <;> rfl

/-- All passes together are one replacement. -/
theorem foldl_pass_eq_replace (t : Template) (r : Request) (settings : HashSettings)
    {passes : List Pass} (hname : .localName ∈ passes) (hcaptures : .captures ∈ passes) :
    passes.foldl (pass name groups) (t.interpolate r settings) =
      replace ⟨t.segments⟩ fun s => (hashText? r settings s).or <| (r.pathPart s).or <| match s with
        | .localName => some name
        | .capture n => (groups.bind (·[n]?)).map (·.getD "")
        | _ => none := by
  have hfold (e : Expansion) : passes.foldl (pass name groups) e =
      (passes.map (Pass.text? name groups)).foldl replace e := by
    rw [List.foldl_map]
    congr 1
    funext e k
    exact pass_eq_replace e k
  have hall : passes.foldl (pass name groups) (t.interpolate r settings) =
      (hashText? r settings :: r.pathPart :: passes.map (Pass.text? name groups)).foldl replace
        ⟨t.segments⟩ := by
    rw [hfold, Template.interpolate, expandPaths, expandHashes_eq_replace, List.foldl_cons,
      List.foldl_cons]
  rw [hall, foldl_replace]
  · apply replace_congr
    intro s
    rw [List.findSome?_cons, List.findSome?_cons, findSome?_passes hname hcaptures]
    cases hashText? r settings s <;> cases r.pathPart s <;> rfl
  · intro f hf text
    rcases List.mem_cons.1 hf with rfl | hf
    · rfl
    · rcases List.mem_cons.1 hf with rfl | hf
      · rfl
      · obtain ⟨k, -, rfl⟩ := List.mem_map.1 hf
        cases k <;> rfl

/-- However the last passes are ordered and repeated, a template becomes the texts that its segments
stand for by themselves, one after the other. -/
theorem render_passes (t : Template) (r : Request) (settings : HashSettings) (name : String)
    (regex : Option Regex.Matcher) (subject : String) {passes : List Pass}
    (hname : .localName ∈ passes) (hcaptures : .captures ∈ passes) :
    (passes.foldl (pass name (regex.bind (·.captures subject))) (t.interpolate r settings)).render =
      String.join (t.segments.map
        (Segment.meaning r settings name (regex.bind (·.captures subject)))) := by
  rw [foldl_pass_eq_replace t r settings hname hcaptures, render_replace]
  congr 2
  funext s
  cases s with
  | capture n =>
    simp only [hashText?, Request.pathPart, Segment.meaning, Segment.render, Option.none_or]
    cases (regex.bind (·.captures subject)).bind (·[n]?) <;> rfl
  | _ => rfl

theorem render_passes_brackets :
    let t : Template := ⟨"[local][path][hash][hash:20][1][2][7]",
      [.localName, .path, .hash .none, .hash ⟨none, none, some 20⟩, .capture 1, .capture 2,
        .capture 7]⟩
    let r : Request := ⟨⟨"/p/[local]/a.css"⟩, ⟨"/p"⟩, "[1]", none, none⟩
    let settings : HashSettings := ⟨.default, none, .tiered⟩
    let regex := Regex.Matcher.parse? "/([^/]*)/a(b)?"
    let passes : List Pass := [.captures, .localName, .captures, .localName]
    let digest := settings.digest r.hashContent .default
    .localName ∈ passes ∧ .captures ∈ passes ∧
      (passes.foldl (pass "[1]" (regex.bind (·.captures "/p/[local]/a.css")))
          (t.interpolate r settings)).render =
        "[1]" ++ "[local]/" ++ digest ++ digest ++ "[local]" ++ "" ++ "[7]" := by
  intro t r settings regex passes digest
  have hname : .localName ∈ passes := by decide
  have hcaptures : .captures ∈ passes := by decide
  refine ⟨hname, hcaptures, ?_⟩
  rw [render_passes t r settings "[1]" regex "/p/[local]/a.css" hname hcaptures]
  have hgroups : regex.bind (·.captures "/p/[local]/a.css") =
      some [some "/[local]/a", some "[local]", none] := by decide +kernel
  have hpath : r.pathPart .path = some "[local]/" := by decide +kernel
  rw [hgroups]
  simp only [t, List.map, String.join, List.foldl, Segment.meaning, hpath]
  rfl

end Expansion

end CssModules
