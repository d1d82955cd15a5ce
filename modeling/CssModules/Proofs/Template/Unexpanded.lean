import CssModules.Proofs.Template.Parameters
import CssModules.Proofs.Template.Passes
import CssModules.Proofs.Text.Digits

namespace CssModules

namespace Placeholder

variable {c : Char} {inner digits : List Char} {n : Nat}

/-- Whether the text between brackets is a capture with more zeros than its number needs. -/
def Padded (inner : List Char) : Prop :=
  isNumber inner = true ∧ numberValue inner < numberLimit ∧ inner.head? = some '0' ∧ inner ≠ ['0']

theorem isDigit_toLower (c : Char) : c.toLower.isDigit = c.isDigit := by
  by_cases h : c.val ≥ 'A'.val ∧ c.val ≤ 'Z'.val
  · have hlow : 65 ≤ c.toNat := UInt32.le_iff_toNat_le.1 h.1
    have hhigh : c.toNat ≤ 90 := UInt32.le_iff_toNat_le.1 h.2
    have hshift : ('a'.val - 'A'.val).toNat = 32 := rfl
    have hnine : '9'.toNat = 57 := rfl
    have hval : c.toLower.val = c.val + ('a'.val - 'A'.val) := congrArg Char.val (dif_pos h)
    have hlower : c.toLower.toNat = c.toNat + 32 := by
      rw [Char.toNat, hval, UInt32.toNat_add, hshift]
      exact Nat.mod_eq_of_lt (by change c.toNat + 32 < _; omega)
    rw [Bool.eq_iff_iff, Char.isDigit_iff_toNat, Char.isDigit_iff_toNat, hlower]
    omega
  · exact congrArg Char.isDigit (dif_neg h)

theorem isNumber_toLower (inner : List Char) : isNumber (inner.map Char.toLower) = isNumber inner := by
  rw [isNumber, isNumber, List.isEmpty_map, List.all_map]
  congr 2
  funext c
  exact isDigit_toLower c

theorem isNumber_iff : isNumber digits = true ↔ digits ≠ [] ∧ ∀ c ∈ digits, c.isDigit = true := by
  simp [isNumber]

theorem toLower_of_isNumber (h : isNumber digits = true) : digits.map Char.toLower = digits := by
  rw [List.map_congr_left fun c hc => toLower_of_isDigit ((isNumber_iff.1 h).2 c hc)]
  exact List.map_id' digits

theorem simpleSegment?_of_isNumber (h : isNumber digits = true) :
    simpleSegment? (String.ofList digits) = none := by
  have hwords : ∀ name ∈ simpleWords, isNumber name.toList = false := by decide +kernel
  apply simpleSegment?_eq_none
  intro hmem
  have hname := hwords _ hmem
  rw [String.toList_ofList, h] at hname
  cases hname

/-- The captures are the numbers that are not too great. -/
theorem classify_eq_capture_iff : classify inner = .ok (some (.capture n)) ↔
    isNumber inner = true ∧ numberValue inner = n ∧ n < numberLimit := by
  constructor
  · intro h
    cases hsimple : simpleSegment? (String.ofList (inner.map Char.toLower)) with
    | some s =>
      rw [classify, hsimple] at h
      cases h
      rw [simpleSegment?.eq_def] at hsimple
      split at hsimple <;> cases hsimple
    | none =>
      by_cases hnumber : isNumber inner = true
      · rw [classify, toLower_of_isNumber hnumber, simpleSegment?_of_isNumber hnumber] at h
        dsimp only at h
        rw [if_pos hnumber] at h
        split at h
        · next hlimit =>
          cases h
          exact ⟨hnumber, rfl, hlimit⟩
        · cases h
      · by_cases hcut :
            ∃ front words, HashCut (Text.splitAt ':' (inner.map Char.toLower)) front words
        · obtain ⟨front, words, hcut⟩ := hcut
          rw [classify_of_hashCut hcut] at h
          cases ho : overrides front words <;> rw [ho] at h <;> cases h
        · rw [Bool.not_eq_true, ← isNumber_toLower] at hnumber
          rw [classify_of_not_hashCut hsimple hnumber (by simpa using hcut)] at h
          cases h
  · rintro ⟨hnumber, rfl, hlimit⟩
    rw [classify, toLower_of_isNumber hnumber, simpleSegment?_of_isNumber hnumber]
    dsimp only
    rw [if_pos hnumber, if_pos hlimit]

theorem toDigits_numberValue (h : isNumber digits = true) :
    Nat.toDigits 10 (numberValue digits) = Text.unpadded digits :=
  Text.toDigits_ofDigitChars (isNumber_iff.1 h).2

theorem unpadded_eq_self_iff (h : isNumber digits = true) (hlimit : numberValue digits < numberLimit) :
    Text.unpadded digits = digits ↔ ¬Padded digits := by
  rw [Text.unpadded_eq_self_iff (isNumber_iff.1 h).1, Padded]
  tauto

end Placeholder

namespace Template

open Placeholder (classify Padded isNumber numberValue numberLimit)

def Mark.unpadded (m : Mark) : Mark := { m with inner := Text.unpadded m.inner }

def Cut.unpadded (c : Cut) : Cut := ⟨c.marks.map Mark.unpadded, c.rest⟩

def Cut.Captures (c : Cut) : Prop :=
  ∀ m ∈ c.marks, isNumber m.inner = true ∧ numberValue m.inner < numberLimit ∧
    m.segment = .capture (numberValue m.inner)

variable {cs : List Char} {source : String} {c : Cut}

theorem forall_bracketed_iff {P : List Char → Prop} :
    (∀ start inner, Bracketed cs start inner → P inner) ↔
      ∀ inner, .bracketed inner ∈ piecesFrom none cs → P inner := by
  constructor
  · intro h inner hmem
    obtain ⟨before, after, he⟩ := List.append_of_mem hmem
    exact h _ inner (bracketed_iff.2 ⟨before, after, he, rfl⟩)
  · intro h start inner hb
    obtain ⟨before, after, he, -⟩ := bracketed_iff.1 hb
    exact h inner (by simp [he])

namespace Cut

theorem render_literal (text : List Char) :
    ((literal text).flatMap fun s => s.render.toList) = text := by
  rw [literal]
  split
  · next h => exact h.symm
  · simp [Segment.render]

theorem Captures.render (h : c.Captures) :
    (c.segments.flatMap fun s => s.render.toList) = c.unpadded.text := by
  obtain ⟨marks, rest⟩ := c
  induction marks with
  | nil => exact render_literal rest
  | cons m marks ih =>
    obtain ⟨⟨hnumber, -, hsegment⟩, hmarks⟩ := List.forall_mem_cons.1 h
    have hcapture : m.segment.render.toList = '[' :: Text.unpadded m.inner ++ [']'] := by
      rw [hsegment, Segment.render, Nat.toString_eq_ofList_toDigits,
        Placeholder.toDigits_numberValue hnumber]
      simp
    have hrest := ih hmarks
    rw [segments_cons, List.flatMap_append, render_literal, List.flatMap_cons, hcapture, hrest,
      unpadded, unpadded, List.map_cons, text_cons]
    simp [Mark.unpadded, Mark.text]

theorem Captures.unpadded_text_eq_iff (h : c.Captures) :
    c.unpadded.text = c.text ↔ ∀ m ∈ c.marks, Text.unpadded m.inner = m.inner := by
  obtain ⟨marks, rest⟩ := c
  induction marks with
  | nil => exact iff_of_true rfl nofun
  | cons m marks ih =>
    obtain ⟨⟨hnumber, -, -⟩, hmarks⟩ := List.forall_mem_cons.1 h
    have hclose : ']' ∉ m.inner := fun hmem => by
      have hdigit := (Placeholder.isNumber_iff.1 hnumber).2 _ hmem
      cases hdigit
    have hclose' : ']' ∉ Text.unpadded m.inner := fun hmem => by
      rcases Text.mem_of_mem_unpadded hmem with he | hmem
      · cases he
      · exact hclose hmem
    have htext : unpadded ⟨m :: marks, rest⟩ = ⟨m.unpadded :: marks.map Mark.unpadded, rest⟩ := rfl
    have hrest : unpadded ⟨marks, rest⟩ = ⟨marks.map Mark.unpadded, rest⟩ := rfl
    rw [htext, text_cons, text_cons, Mark.text, Mark.text, List.forall_mem_cons, ← ih hmarks, hrest,
      ← Text.append_cons_inj hclose' hclose]
    simp [Mark.unpadded]

theorem Captures.segment_cases (h : c.Captures) {s : Segment} (hs : s ∈ c.segments) :
    (∃ text, s = .literal text) ∨ ∃ n, s = .capture n := by
  rcases List.mem_append.1 hs with hs | hs
  · obtain ⟨m, hm, hs⟩ := List.mem_flatMap.1 hs
    rcases List.mem_append.1 hs with hs | hs
    · exact .inl ⟨_, (mem_literal hs).2⟩
    · rw [List.mem_singleton.1 hs]
      exact .inr ⟨_, (h m hm).2.2⟩
  · exact .inl ⟨_, (mem_literal hs).2⟩

theorem Of.bracketed (h : c.Of cs) {m : Mark} (hm : m ∈ c.marks) :
    ∃ start, Bracketed cs start m.inner := by
  obtain ⟨hopen, hclose, -⟩ := h.recognised m hm
  obtain ⟨before, after, he⟩ := List.append_of_mem hm
  refine ⟨_, hopen, hclose, before.flatMap Mark.text ++ m.stretch,
    after.flatMap Mark.text ++ c.rest, rfl, ?_⟩
  simp [← h.text_eq, text, he, Mark.text]

end Cut

/-- A template that holds nothing but captures and text, and is matched by no expression, comes out as
it is written, its numbers without zeros in front; so it stays the same exactly if none has any. -/
theorem render_unexpanded (h : ∀ start inner, Bracketed source.toList start inner →
      classify inner = .ok none ∨ ∃ n, classify inner = .ok (some (.capture n))) :
    ∃ (t : Template) (c : Cut), parse source = .ok t ∧ c.Of source.toList ∧
      ∀ (r : Request) (settings : HashSettings) (name : String) (regex : Option Regex.Matcher)
        (subject : String), regex.bind (·.captures subject) = none →
      let rendered := (((t.interpolate r settings).substituteLocal name).substituteCaptures
        (regex.bind (·.captures subject))).render
      rendered = String.ofList c.unpadded.text ∧
        (rendered = source ↔ ∀ start inner, Bracketed source.toList start inner → ¬Padded inner) := by
  have hclassify : ∀ start inner, Bracketed source.toList start inner →
      ∃ r, classify inner = .ok r := by
    intro start inner hb
    rcases h start inner hb with hnone | ⟨n, hn⟩
    · exact ⟨none, hnone⟩
    · exact ⟨_, hn⟩
  obtain ⟨c, hc, hsegments⟩ := exists_cut hclassify
  have hcaptures : c.Captures := by
    intro m hm
    obtain ⟨-, -, hrecognised⟩ := hc.recognised m hm
    obtain ⟨start, hb⟩ := hc.bracketed hm
    rcases h start m.inner hb with hnone | ⟨n, hn⟩
    · rw [hnone] at hrecognised
      cases hrecognised
    · obtain ⟨hnumber, rfl, hlimit⟩ := Placeholder.classify_eq_capture_iff.1 hn
      exact ⟨hnumber, hlimit, (Option.some.inj (Except.ok.inj (hn.symm.trans hrecognised))).symm⟩
  refine ⟨⟨source, c.segments⟩, c, by rw [parse, hsegments], hc, ?_⟩
  intro r settings name regex subject hmatch rendered
  have hrendered : rendered = String.ofList c.unpadded.text := by
    have hpasses := @Expansion.foldl_pass_eq_replace name (regex.bind (·.captures subject))
      ⟨source, c.segments⟩ r settings [.localName, .captures] (by simp) (by simp)
    have hrender : rendered = String.join (c.segments.map Segment.render) := by
      refine (congrArg Expansion.render hpasses).trans ?_
      rw [Expansion.render_replace, hmatch]
      congr 1
      apply List.map_congr_left
      intro s hs
      rcases hcaptures.segment_cases hs with ⟨text, rfl⟩ | ⟨n, rfl⟩ <;> rfl
    rw [hrender, ← hcaptures.render, ← String.toList_inj, String.toList_ofList, String.toList_join]
    exact List.flatMap_map ..
  refine ⟨hrendered, ?_⟩
  rw [hrendered, ← String.toList_inj, String.toList_ofList, ← hc.text_eq,
    hcaptures.unpadded_text_eq_iff]
  constructor
  · intro hself start inner hb hpadded
    have hcapture := Placeholder.classify_eq_capture_iff.2 ⟨hpadded.1, rfl, hpadded.2.1⟩
    rw [hc.text_eq] at hb
    obtain ⟨before, m, after, hmarks, rfl, -⟩ := hc.complete start inner _ hb hcapture
    have hm := hself m (by simp [hmarks])
    exact (Placeholder.unpadded_eq_self_iff hpadded.1 hpadded.2.1).1 hm hpadded
  · intro hpadded m hm
    obtain ⟨hnumber, hlimit, -⟩ := hcaptures m hm
    obtain ⟨start, hb⟩ := hc.bracketed hm
    rw [← hc.text_eq] at hb
    exact (Placeholder.unpadded_eq_self_iff hnumber hlimit).2 (hpadded start m.inner hb)

theorem render_unexpanded_bounds :
    let source := "[18446744073709551615][x[0]][018446744073709551616]-[a:b]"
    let r : Request := ⟨⟨"/project/a.css"⟩, ⟨"/project"⟩, "x", none, none⟩
    let regex := Regex.Matcher.parse? "themes/([a-z]+)"
    let groups := regex.bind (·.captures "/project/a.css")
    (∀ start inner, Bracketed source.toList start inner →
        classify inner = .ok none ∨ ∃ n, classify inner = .ok (some (.capture n))) ∧
      regex.isSome ∧ groups = none ∧ ∃ t, parse source = .ok t ∧
        (((t.interpolate r ⟨.default, none, .tiered⟩).substituteLocal "x").substituteCaptures
          groups).render = source := by
  intro source r regex groups
  have hpieces : piecesFrom none source.toList =
      [.bracketed "18446744073709551615".toList, .plain '[', .plain 'x', .bracketed ['0'], .plain ']',
        .bracketed "018446744073709551616".toList, .plain '-', .bracketed "a:b".toList] := by
    decide +kernel
  have hcases {inner : List Char} (hmem : .bracketed inner ∈ piecesFrom none source.toList) :
      inner = "18446744073709551615".toList ∨ inner = ['0'] ∨
        inner = "018446744073709551616".toList ∨ inner = "a:b".toList := by
    simpa [hpieces] using hmem
  have hinner : ∀ start inner, Bracketed source.toList start inner →
      classify inner = .ok none ∨ ∃ n, classify inner = .ok (some (.capture n)) := by
    refine forall_bracketed_iff.2 fun inner hmem => ?_
    rcases hcases hmem with rfl | rfl | rfl | rfl
    · exact .inr ⟨18446744073709551615, by decide +kernel⟩
    · exact .inr ⟨0, by decide +kernel⟩
    · exact .inl (by decide +kernel)
    · exact .inl (by decide +kernel)
  have hgroups : groups = none := by decide +kernel
  obtain ⟨t, c, ht, -, hrender⟩ := render_unexpanded hinner
  refine ⟨hinner, by decide +kernel, hgroups, t, ht, ?_⟩
  refine (hrender r _ "x" regex "/project/a.css" hgroups).2.2 (forall_bracketed_iff.2 ?_)
  rintro inner hmem ⟨-, hlimit, hhead, hne⟩
  rcases hcases hmem with rfl | rfl | rfl | rfl
  all_goals
    revert hlimit hhead hne
    decide +kernel

/-- A capture that is written with a zero in front loses it. -/
theorem render_unexpanded_zero :
    let r : Request := ⟨⟨"/project/a.css"⟩, ⟨"/project"⟩, "x", none, none⟩
    (∀ start inner, Bracketed "[01]".toList start inner →
        ∃ n, classify inner = .ok (some (.capture n))) ∧
      ∃ t, parse "[01]" = .ok t ∧
        (((t.interpolate r ⟨.default, none, .tiered⟩).substituteLocal "x").substituteCaptures
          none).render = "[1]" := by
  intro r
  constructor
  · refine forall_bracketed_iff.2 fun inner hmem => ?_
    have hpieces : piecesFrom none "[01]".toList = [.bracketed "01".toList] := by decide +kernel
    rw [hpieces, List.mem_singleton, Piece.bracketed.injEq] at hmem
    exact ⟨1, by rw [hmem]; decide +kernel⟩
  · exact ⟨⟨"[01]", [.capture 1]⟩, by decide +kernel, by decide +kernel⟩

end Template

end CssModules
