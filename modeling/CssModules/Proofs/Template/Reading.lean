import CssModules.Template.Parse
import Mathlib.Data.List.Chain

namespace CssModules.Template

open Placeholder (classify)

/-- Behind so many characters of a text stands a pair of brackets with a text in between that has no
bracket itself. -/
def Bracketed (cs : List Char) (start : Nat) (inner : List Char) : Prop :=
  '[' ∉ inner ∧ ']' ∉ inner ∧
    ∃ before after, before.length = start ∧ cs = before ++ '[' :: inner ++ ']' :: after

variable {cs cs' inner other : List Char} {start i j : Nat} {pieces : List Piece}
  {segment : Segment} {fault : PlaceholderFault}

theorem Bracketed.getElem?_start (h : Bracketed cs start inner) : cs[start]? = some '[' := by
  obtain ⟨-, -, before, after, rfl, rfl⟩ := h
  simp

theorem Bracketed.getElem?_ne (h : Bracketed cs start inner) (hlow : start < i)
    (hhigh : i < start + inner.length + 2) : cs[i]? ≠ some '[' := by
  obtain ⟨hopen, -, before, after, rfl, rfl⟩ := h
  obtain ⟨k, rfl⟩ := Nat.exists_eq_add_of_lt hlow
  intro he
  rw [List.append_assoc, Nat.add_assoc, List.getElem?_append_right (Nat.le_add_right ..),
    Nat.add_sub_cancel_left, List.cons_append, List.getElem?_cons_succ] at he
  rcases Nat.lt_or_ge k inner.length with hk | hk
  · rw [List.getElem?_append_left hk] at he
    exact hopen (List.mem_of_getElem? he)
  · obtain rfl : k = inner.length := by omega
    simp at he

theorem Bracketed.inner_eq (h : Bracketed cs start inner) (h' : Bracketed cs start other) :
    inner = other := by
  obtain ⟨-, hclose, before, after, hlength, rfl⟩ := h
  obtain ⟨-, hclose', before', after', hlength', he⟩ := h'
  rw [List.append_assoc, List.append_assoc] at he
  obtain ⟨-, htail⟩ := List.append_inj he (hlength.trans hlength'.symm)
  exact ((Text.append_cons_inj hclose hclose').1 (List.cons.inj htail).2).1

theorem Bracketed.disjoint (h : Bracketed cs i inner) (h' : Bracketed cs j other) :
    (i = j ∧ inner = other) ∨ i + inner.length + 2 ≤ j ∨ j + other.length + 2 ≤ i := by
  rcases Nat.lt_trichotomy i j with hlt | rfl | hlt
  · refine .inr (.inl ?_)
    by_contra hover
    exact h.getElem?_ne hlt (by omega) h'.getElem?_start
  · exact .inl ⟨rfl, h.inner_eq h'⟩
  · refine .inr (.inr ?_)
    by_contra hover
    exact h'.getElem?_ne hlt (by omega) h.getElem?_start

theorem Bracketed.append_left (h : Bracketed cs start inner) (ds : List Char) :
    Bracketed (ds ++ cs) (ds.length + start) inner := by
  obtain ⟨hopen, hclose, before, after, rfl, rfl⟩ := h
  exact ⟨hopen, hclose, ds ++ before, after, List.length_append, by simp [List.append_assoc]⟩

theorem Bracketed.append_right (h : Bracketed cs start inner) (ds : List Char) :
    Bracketed (cs ++ ds) start inner := by
  obtain ⟨hopen, hclose, before, after, hstart, rfl⟩ := h
  exact ⟨hopen, hclose, before, after ++ ds, hstart, by simp [List.append_assoc]⟩

theorem Bracketed.of_infix (h : Bracketed cs i inner) (hcs : cs <:+: cs') :
    ∃ j, Bracketed cs' j inner := by
  obtain ⟨before, after, rfl⟩ := hcs
  exact ⟨_, (h.append_left before).append_right after⟩

theorem Bracketed.le_length (h : Bracketed cs start inner) :
    start + inner.length + 2 ≤ cs.length := by
  obtain ⟨-, -, before, after, rfl, rfl⟩ := h
  simp only [List.length_append, List.length_cons]
  omega

def piecesText (pieces : List Piece) : List Char := pieces.flatMap Piece.text

theorem piecesFrom_close (opened : List Char) (after : List Char) (hopen : '[' ∉ inner)
    (hclose : ']' ∉ inner) :
    piecesFrom (some opened) (inner ++ ']' :: after) =
      .bracketed (opened ++ inner) :: piecesFrom none after := by
  induction inner generalizing opened with
  | nil => simp [piecesFrom]
  | cons c inner ih =>
    simp only [List.mem_cons, not_or] at hopen hclose
    rw [List.cons_append, piecesFrom, if_neg (Ne.symm hopen.1), if_neg (Ne.symm hclose.1),
      ih _ hopen.2 hclose.2, List.append_assoc]
    rfl

theorem exists_piecesFrom_open (opened : Option (List Char)) (before : List Char) :
    ∃ pieces, ∀ rest, piecesFrom opened (before ++ '[' :: rest) =
      pieces ++ piecesFrom (some []) rest := by
  induction before generalizing opened with
  | nil =>
    cases opened with
    | none => exact ⟨[], fun rest => by simp [piecesFrom]⟩
    | some inner => exact ⟨.plain '[' :: inner.map .plain, fun rest => by simp [piecesFrom]⟩
  | cons c before ih =>
    cases opened with
    | none =>
      by_cases hopen : c = '['
      · obtain ⟨pieces, h⟩ := ih (some [])
        exact ⟨pieces, fun rest => by rw [List.cons_append, piecesFrom, if_pos hopen, h]⟩
      · obtain ⟨pieces, h⟩ := ih none
        refine ⟨.plain c :: pieces, fun rest => ?_⟩
        rw [List.cons_append, piecesFrom, if_neg hopen, h, List.cons_append]
    | some inner =>
      by_cases hopen : c = '['
      · obtain ⟨pieces, h⟩ := ih (some [])
        refine ⟨.plain '[' :: inner.map .plain ++ pieces, fun rest => ?_⟩
        rw [List.cons_append, piecesFrom, if_pos hopen, h, List.append_assoc]
      · by_cases hclose : c = ']'
        · obtain ⟨pieces, h⟩ := ih none
          refine ⟨.bracketed inner :: pieces, fun rest => ?_⟩
          rw [List.cons_append, piecesFrom, if_neg hopen, if_pos hclose, h, List.cons_append]
        · obtain ⟨pieces, h⟩ := ih (some (inner ++ [c]))
          refine ⟨pieces, fun rest => ?_⟩
          rw [List.cons_append, piecesFrom, if_neg hopen, if_neg hclose, h]

theorem not_mem_of_mem_piecesFrom (opened : Option (List Char))
    (hopened : ∀ read ∈ opened, '[' ∉ read ∧ ']' ∉ read)
    (h : .bracketed inner ∈ piecesFrom opened cs) : '[' ∉ inner ∧ ']' ∉ inner := by
  induction cs generalizing opened with
  | nil => cases opened <;> simp [piecesFrom] at h
  | cons c cs ih =>
    cases opened with
    | none =>
      rw [piecesFrom] at h
      split at h
      · exact ih (some []) (by simp) h
      · exact ih none (by simp) (by simpa using h)
    | some read =>
      rw [piecesFrom] at h
      split at h
      · exact ih (some []) (by simp) (by simpa using h)
      · next hopen =>
        split at h
        · rcases List.mem_cons.1 h with he | h
          · obtain rfl := Piece.bracketed.inj he
            exact hopened _ rfl
          · exact ih none (by simp) h
        · next hclose =>
          refine ih _ ?_ h
          rintro - ⟨⟩
          have hread := hopened read rfl
          simp [hread, Ne.symm hopen, Ne.symm hclose]

theorem bracketed_iff : Bracketed cs start inner ↔
    ∃ before after, piecesFrom none cs = before ++ .bracketed inner :: after ∧
      (piecesText before).length = start := by
  constructor
  · rintro ⟨hopen, hclose, before, after, rfl, rfl⟩
    obtain ⟨pieces, h⟩ := exists_piecesFrom_open none before
    have htext := text_piecesFrom none (before ++ ['['])
    rw [h []] at htext
    refine ⟨pieces, piecesFrom none after, ?_, ?_⟩
    · rw [List.append_assoc, List.cons_append, h, piecesFrom_close [] after hopen hclose]
      rfl
    · have hpieces : pieces.flatMap Piece.text = before := by
        simpa [piecesFrom, Piece.text] using htext
      rw [piecesText, hpieces]
  · rintro ⟨before, after, h, rfl⟩
    obtain ⟨hopen, hclose⟩ := not_mem_of_mem_piecesFrom none (by simp) <|
      show .bracketed inner ∈ piecesFrom none cs by simp [h]
    refine ⟨hopen, hclose, piecesText before, piecesText after, rfl, ?_⟩
    have htext := text_piecesFrom none cs
    rw [h] at htext
    simpa [Piece.text, piecesText] using htext.symm

theorem segmentsOf_error (h : segmentsOf pieces = .error (inner, fault)) :
    ∃ before after, pieces = before ++ .bracketed inner :: after ∧ classify inner = .error fault ∧
      ∀ other, .bracketed other ∈ before → ∃ r, classify other = .ok r := by
  induction pieces with
  | nil => cases h
  | cons p pieces ih =>
    have behind (hrest : segmentsOf pieces = .error (inner, fault))
        (hp : ∀ other, p = .bracketed other → ∃ r, classify other = .ok r) :
        ∃ before after, p :: pieces = before ++ .bracketed inner :: after ∧
          classify inner = .error fault ∧
          ∀ other, .bracketed other ∈ before → ∃ r, classify other = .ok r := by
      obtain ⟨before, after, rfl, hfault, hbefore⟩ := ih hrest
      refine ⟨p :: before, after, rfl, hfault, ?_⟩
      intro other hmem
      rcases List.mem_cons.1 hmem with he | hmem
      · exact hp other he.symm
      · exact hbefore other hmem
    cases p with
    | plain c =>
      refine behind ?_ (by simp)
      rw [segmentsOf] at h
      cases hrest : segmentsOf pieces with
      | ok segments => rw [hrest] at h; cases h
      | error e => rw [hrest] at h; exact h
    | bracketed other =>
      rw [segmentsOf] at h
      cases hc : classify other with
      | error e =>
        simp only [hc, Except.error.injEq, Prod.mk.injEq] at h
        obtain ⟨rfl, rfl⟩ := h
        exact ⟨[], pieces, rfl, hc, by simp⟩
      | ok r =>
        refine behind ?_ ?_
        · simp only [hc] at h
          cases hrest : segmentsOf pieces with
          | ok segments => rw [hrest] at h; cases r <;> cases h
          | error e => rw [hrest] at h; cases r <;> exact h
        · rintro other' ⟨⟩
          exact ⟨r, hc⟩

def literal (text : List Char) : List Segment :=
  if text = [] then [] else [.literal (String.ofList text)]

/-- A placeholder with the text in front of it, up to the placeholder before. -/
structure Mark where
  stretch : List Char
  inner : List Char
  segment : Segment

def Mark.text (m : Mark) : List Char := m.stretch ++ '[' :: m.inner ++ [']']

/-- A text cut at its placeholders. -/
structure Cut where
  marks : List Mark
  rest : List Char

namespace Cut

def text (c : Cut) : List Char := c.marks.flatMap Mark.text ++ c.rest

def segments (c : Cut) : List Segment :=
  c.marks.flatMap (fun m => literal m.stretch ++ [m.segment]) ++ literal c.rest

def HasMark (c : Cut) (start : Nat) (inner : List Char) : Prop :=
  ∃ before m after, c.marks = before ++ m :: after ∧ m.inner = inner ∧
    (before.flatMap Mark.text ++ m.stretch).length = start

/-- The cut of a text whose marks are its pairs of brackets that are recognised, and all of them. -/
structure Of (cs : List Char) (c : Cut) : Prop where
  text_eq : c.text = cs
  recognised : ∀ m ∈ c.marks,
    '[' ∉ m.inner ∧ ']' ∉ m.inner ∧ classify m.inner = .ok (some m.segment)
  complete : ∀ start inner segment, Bracketed cs start inner →
    classify inner = .ok (some segment) → c.HasMark start inner

variable {c c' : Cut} {m : Mark} {marks : List Mark} {rest : List Char}

theorem length_text (m : Mark) : m.text.length = m.stretch.length + m.inner.length + 2 := by
  simp only [Mark.text, List.length_append, List.length_cons, List.length_nil]
  omega

theorem text_cons : text ⟨m :: marks, rest⟩ = m.text ++ text ⟨marks, rest⟩ := by
  simp [text]

theorem segments_cons :
    segments ⟨m :: marks, rest⟩ = literal m.stretch ++ m.segment :: segments ⟨marks, rest⟩ := by
  simp [segments]

theorem hasMark_cons : HasMark ⟨m :: marks, rest⟩ i inner ↔
    (m.stretch.length = i ∧ m.inner = inner) ∨
      ∃ j, i = m.text.length + j ∧ HasMark ⟨marks, rest⟩ j inner := by
  constructor
  · rintro ⟨before, m', after, he, hinner, hstart⟩
    cases before with
    | nil =>
      obtain ⟨rfl, -⟩ := List.cons.inj he
      exact .inl ⟨hstart, hinner⟩
    | cons m'' before =>
      obtain ⟨rfl, htail⟩ := List.cons.inj he
      refine .inr ⟨_, ?_, before, m', after, htail, hinner, rfl⟩
      rw [← hstart, List.flatMap_cons, List.append_assoc, List.length_append]
  · rintro (⟨hstart, hinner⟩ | ⟨j, rfl, before, m', after, he, hinner, rfl⟩)
    · exact ⟨[], m, marks, rfl, hinner, hstart⟩
    · refine ⟨m :: before, m', after, congrArg (m :: ·) he, hinner, ?_⟩
      rw [List.flatMap_cons, List.append_assoc, List.length_append]

def prepend (front : List Char) : Cut → Cut
  | ⟨[], rest⟩ => ⟨[], front ++ rest⟩
  | ⟨m :: marks, rest⟩ => ⟨{ m with stretch := front ++ m.stretch } :: marks, rest⟩

theorem text_prepend (front : List Char) (c : Cut) : (c.prepend front).text = front ++ c.text := by
  rcases c with ⟨_ | ⟨m, marks⟩, rest⟩ <;> simp [prepend, text, Mark.text]

theorem HasMark.prepend (h : c.HasMark i inner) (front : List Char) :
    (c.prepend front).HasMark (front.length + i) inner := by
  rcases c with ⟨_ | ⟨m, marks⟩, rest⟩
  · obtain ⟨before, m, after, he, -⟩ := h
    simp at he
  · refine hasMark_cons.2 ?_
    rcases hasMark_cons.1 h with ⟨rfl, hinner⟩ | ⟨j, rfl, hj⟩
    · exact .inl ⟨List.length_append, hinner⟩
    · refine .inr ⟨j, ?_, hj⟩
      simp only [Mark.text, List.append_assoc, List.length_append]
      omega

theorem consText_segments (front : List Char) (hne : front ≠ [])
    (hmarks : ∀ m ∈ c.marks, ∀ t, m.segment ≠ .literal t) :
    consText front c.segments = (c.prepend front).segments := by
  have hjoin (cs : List Char) (segments : List Segment)
      (hsegments : ∀ t ∈ segments.head?, ∀ s, t ≠ .literal s) :
      consText front (literal cs ++ segments) = literal (front ++ cs) ++ segments := by
    have hfront : literal (front ++ cs) = [.literal (String.ofList (front ++ cs))] :=
      if_neg fun he => hne (List.append_eq_nil_iff.1 he).1
    rw [hfront, literal]
    split
    · next hcs =>
      rw [hcs, List.append_nil]
      cases segments with
      | nil => rfl
      | cons s segments =>
        have hs := hsegments s rfl
        cases s with
        | literal t => exact absurd rfl (hs t)
        | _ => rfl
    · rw [String.ofList_append]
      rfl
  rcases c with ⟨_ | ⟨m, marks⟩, rest⟩
  · simpa [segments, prepend] using hjoin rest []
  · rw [prepend, segments_cons, segments_cons]
    refine hjoin m.stretch _ ?_
    rintro - ⟨⟩
    exact hmarks m (List.mem_cons_self ..)

namespace Of

theorem mark (h : Of cs ⟨m :: marks, rest⟩) : Bracketed cs m.stretch.length m.inner := by
  obtain ⟨hopen, hclose, -⟩ := h.recognised m (List.mem_cons_self ..)
  refine ⟨hopen, hclose, m.stretch, text ⟨marks, rest⟩, rfl, ?_⟩
  simp [← h.text_eq, text_cons, Mark.text]

theorem tail (h : Of cs ⟨m :: marks, rest⟩) : Of (text ⟨marks, rest⟩) ⟨marks, rest⟩ where
  text_eq := rfl
  recognised m hm := h.recognised m (List.mem_cons_of_mem _ hm)
  complete start inner segment hb hc := by
    have hcs := hb.append_left m.text
    rw [← text_cons, h.text_eq] at hcs
    rcases hasMark_cons.1 (h.complete _ _ _ hcs hc) with ⟨he, -⟩ | ⟨j, he, hj⟩
    · simp only [Mark.text, List.length_append, List.length_cons] at he
      omega
    · obtain rfl := Nat.add_left_cancel he
      exact hj

theorem unique (h : c.Of cs) (h' : c'.Of cs) : c = c' := by
  obtain ⟨marks, rest⟩ := c
  obtain ⟨marks', rest'⟩ := c'
  induction marks generalizing cs marks' with
  | nil =>
    cases marks' with
    | nil =>
      have hrest : rest = rest' := h.text_eq.trans h'.text_eq.symm
      rw [hrest]
    | cons m' marks' =>
      obtain ⟨-, -, hc⟩ := h'.recognised m' (List.mem_cons_self ..)
      obtain ⟨before, m, after, he, -⟩ := h.complete _ _ _ h'.mark hc
      simp at he
  | cons m marks ih =>
    obtain ⟨-, -, hc⟩ := h.recognised m (List.mem_cons_self ..)
    cases marks' with
    | nil =>
      obtain ⟨before, m', after, he, -⟩ := h'.complete _ _ _ h.mark hc
      simp at he
    | cons m' marks' =>
      obtain ⟨-, -, hc'⟩ := h'.recognised m' (List.mem_cons_self ..)
      have hfirst : m.stretch.length = m'.stretch.length ∧ m.inner = m'.inner := by
        rcases hasMark_cons.1 (h.complete _ _ _ h'.mark hc') with he | ⟨j, hj, -⟩
        · exact he
        · rcases hasMark_cons.1 (h'.complete _ _ _ h.mark hc) with ⟨he, hinner⟩ | ⟨k, hk, -⟩
          · exact ⟨he.symm, hinner.symm⟩
          · rw [length_text] at hj hk
            omega
      have htext : m.stretch ++ ('[' :: m.inner ++ ']' :: text ⟨marks, rest⟩) =
          m'.stretch ++ ('[' :: m'.inner ++ ']' :: text ⟨marks', rest'⟩) := by
        have he := h.text_eq.trans h'.text_eq.symm
        simpa [text_cons, Mark.text] using he
      obtain ⟨hstretch, hbehind⟩ := List.append_inj htext hfirst.1
      rw [hfirst.2] at hbehind hc
      have htail := (List.cons.inj (List.append_cancel_left hbehind)).2
      have hm : m = m' := by
        obtain ⟨stretch, inner, segment⟩ := m
        obtain ⟨stretch', inner', segment'⟩ := m'
        have hsegment := Option.some.inj (Except.ok.inj (hc.symm.trans hc'))
        simp_all
      have hrest := ih h.tail marks' (htail ▸ h'.tail)
      injection hrest with hmarks hrest
      rw [hm, hmarks, hrest]

theorem infix_of_stretch (h : c.Of cs) (ht : cs' = c.rest ∨ ∃ m ∈ c.marks, cs' = m.stretch) :
    cs' <:+: cs := by
  rw [← h.text_eq, text]
  rcases ht with rfl | ⟨m, hm, rfl⟩
  · exact (List.suffix_append ..).isInfix
  · obtain ⟨before, after, he⟩ := List.append_of_mem hm
    refine ⟨before.flatMap Mark.text,
      '[' :: m.inner ++ [']'] ++ after.flatMap Mark.text ++ c.rest, ?_⟩
    simp [he, Mark.text]

theorem not_recognised (h : c.Of cs) (ht : cs' = c.rest ∨ ∃ m ∈ c.marks, cs' = m.stretch)
    (hb : Bracketed cs' i inner) : classify inner ≠ .ok (some segment) := by
  intro hc
  obtain ⟨marks, rest⟩ := c
  induction marks generalizing cs with
  | nil =>
    rcases ht with rfl | ⟨m, hm, -⟩
    · rw [show cs' = cs from h.text_eq] at hb
      obtain ⟨before, m, after, hnil, -⟩ := h.complete _ _ _ hb hc
      simp at hnil
    · cases hm
  | cons m marks ih =>
    by_cases hm : cs' = m.stretch
    · have hcs : Bracketed cs i inner := by
        rw [← h.text_eq, text_cons, Mark.text, List.append_assoc, List.append_assoc, ← hm]
        exact hb.append_right _
      have hle := hb.le_length
      rw [hm] at hle
      rcases hasMark_cons.1 (h.complete _ _ _ hcs hc) with ⟨he, -⟩ | ⟨j, he, -⟩
      · omega
      · rw [length_text] at he
        omega
    · refine ih h.tail (ht.imp_right ?_)
      rintro ⟨m', hm', rfl⟩
      rcases List.mem_cons.1 hm' with rfl | hm'
      · exact absurd rfl hm
      · exact ⟨m', hm', rfl⟩

end Of

end Cut

theorem classify_ne_literal (inner : List Char) (text : String) :
    classify inner ≠ .ok (some (.literal text)) := by
  have hhash (o : Except PlaceholderFault Overrides) :
      (some ∘ Segment.hash) <$> o ≠ .ok (some (.literal text)) := by
    cases o <;> rintro ⟨⟩
  intro h
  rw [classify] at h
  split at h
  · next s hs =>
    obtain rfl := Option.some.inj (Except.ok.inj h)
    rw [Placeholder.simpleSegment?.eq_def] at hs
    split at hs <;> cases hs
  · split at h
    · split at h <;> cases h
    · split at h
      · cases h
      · split at h
        · exact hhash _ h
        · split at h
          · split at h
            · exact hhash _ h
            · cases h
          · cases h

/-- The cut that the segments of some pieces are those of. -/
structure Cut.OfPieces (pieces : List Piece) (c : Cut) : Prop where
  segments_eq : segmentsOf pieces = .ok c.segments
  text_eq : c.text = piecesText pieces
  recognised : ∀ m ∈ c.marks,
    '[' ∉ m.inner ∧ ']' ∉ m.inner ∧ classify m.inner = .ok (some m.segment)
  complete : ∀ before inner after segment, pieces = before ++ .bracketed inner :: after →
    classify inner = .ok (some segment) → c.HasMark (piecesText before).length inner

namespace Cut.OfPieces

variable {c : Cut} {p : Piece}

theorem nil : OfPieces [] ⟨[], []⟩ where
  segments_eq := rfl
  text_eq := rfl
  recognised := by simp
  complete := by simp

theorem front (h : OfPieces pieces c) (hne : p.text ≠ [])
    (hp : ∀ inner, p = .bracketed inner → classify inner = .ok none)
    (hs : segmentsOf (p :: pieces) = consText p.text <$> segmentsOf pieces) :
    OfPieces (p :: pieces) (c.prepend p.text) where
  segments_eq := by
    have hliteral : ∀ m ∈ c.marks, ∀ t, m.segment ≠ .literal t := by
      intro m hm t he
      exact classify_ne_literal m.inner t (he ▸ (h.recognised m hm).2.2)
    rw [hs, h.segments_eq, ← consText_segments p.text hne hliteral]
    rfl
  text_eq := by
    rw [text_prepend, h.text_eq]
    rfl
  recognised := by
    have hmarks := h.recognised
    rcases c with ⟨_ | ⟨m, marks⟩, rest⟩
    · exact hmarks
    · intro m' hm'
      rcases List.mem_cons.1 hm' with rfl | hm'
      · exact hmarks m (List.mem_cons_self ..)
      · exact hmarks m' (List.mem_cons_of_mem _ hm')
  complete before inner after segment he hc := by
    cases before with
    | nil =>
      rw [hp inner (List.cons.inj he).1] at hc
      cases hc
    | cons q before =>
      obtain ⟨rfl, htail⟩ := List.cons.inj he
      have hmark := (h.complete before inner after segment htail hc).prepend p.text
      rw [← List.length_append] at hmark
      exact hmark

theorem placeholder (h : OfPieces pieces c) (hopen : '[' ∉ inner) (hclose : ']' ∉ inner)
    (hc : classify inner = .ok (some segment)) :
    OfPieces (.bracketed inner :: pieces) ⟨⟨[], inner, segment⟩ :: c.marks, c.rest⟩ where
  segments_eq := by
    rw [segmentsOf, hc, h.segments_eq, segments_cons]
    rfl
  text_eq := by
    have htext : text ⟨c.marks, c.rest⟩ = piecesText pieces := h.text_eq
    rw [text_cons, htext]
    rfl
  recognised m hm := by
    rcases List.mem_cons.1 hm with rfl | hm
    · exact ⟨hopen, hclose, hc⟩
    · exact h.recognised m hm
  complete before inner' after segment he hc := by
    apply hasMark_cons.2
    cases before with
    | nil => exact .inl ⟨rfl, Piece.bracketed.inj (List.cons.inj he).1⟩
    | cons q before =>
      obtain ⟨rfl, htail⟩ := List.cons.inj he
      exact .inr ⟨_, List.length_append, h.complete before inner' after segment htail hc⟩

end Cut.OfPieces

theorem exists_ofPieces (h : ∀ inner, .bracketed inner ∈ pieces →
    '[' ∉ inner ∧ ']' ∉ inner ∧ ∃ r, classify inner = .ok r) : ∃ c : Cut, c.OfPieces pieces := by
  induction pieces with
  | nil => exact ⟨_, .nil⟩
  | cons p pieces ih =>
    obtain ⟨c, hcut⟩ := ih fun inner hi => h inner (.tail _ hi)
    cases p with
    | plain c => exact ⟨_, hcut.front (by simp [Piece.text]) (by simp) rfl⟩
    | bracketed inner =>
      obtain ⟨hopen, hclose, r, hr⟩ := h inner (List.mem_cons_self ..)
      cases r with
      | none =>
        refine ⟨_, hcut.front (by simp [Piece.text]) ?_ (by rw [segmentsOf, hr])⟩
        rintro inner' ⟨⟩
        exact hr
      | some s => exact ⟨_, hcut.placeholder hopen hclose hr⟩

theorem exists_cut (h : ∀ start inner, Bracketed cs start inner → ∃ r, classify inner = .ok r) :
    ∃ c : Cut, c.Of cs ∧ segmentsOf (piecesFrom none cs) = .ok c.segments := by
  have hpieces : ∀ inner, .bracketed inner ∈ piecesFrom none cs →
      '[' ∉ inner ∧ ']' ∉ inner ∧ ∃ r, classify inner = .ok r := by
    intro inner hi
    obtain ⟨before, after, he⟩ := List.append_of_mem hi
    obtain ⟨hopen, hclose⟩ := not_mem_of_mem_piecesFrom none (by simp) hi
    exact ⟨hopen, hclose, h _ inner (bracketed_iff.2 ⟨before, after, he, rfl⟩)⟩
  obtain ⟨c, hcut⟩ := exists_ofPieces hpieces
  refine ⟨c, ⟨?_, hcut.recognised, ?_⟩, hcut.segments_eq⟩
  · rw [hcut.text_eq, piecesText, text_piecesFrom]
    rfl
  · intro start inner segment hb hc
    obtain ⟨before, after, he, rfl⟩ := bracketed_iff.1 hb
    exact hcut.complete before inner after segment he hc

theorem segmentsOf_ok {segments : List Segment} (h : segmentsOf pieces = .ok segments)
    (hmem : .bracketed inner ∈ pieces) : ∃ r, classify inner = .ok r := by
  induction pieces generalizing segments with
  | nil => cases hmem
  | cons p pieces ih =>
    cases p with
    | plain c =>
      rw [segmentsOf] at h
      cases hrest : segmentsOf pieces with
      | ok rest => exact ih hrest (by simpa using hmem)
      | error e => rw [hrest] at h; cases h
    | bracketed other =>
      rw [segmentsOf] at h
      cases hc : classify other with
      | error e => rw [hc] at h; cases h
      | ok r =>
        rcases List.mem_cons.1 hmem with he | hmem
        · obtain rfl := Piece.bracketed.inj he
          exact ⟨r, hc⟩
        · cases hrest : segmentsOf pieces with
          | ok rest => exact ih hrest hmem
          | error e => rw [hc, hrest] at h; cases r <;> cases h

/-- The leftmost pair of brackets that is malformed decides on the failure. -/
theorem segmentsOf_eq_error_iff :
    segmentsOf (piecesFrom none cs) = .error (inner, fault) ↔
      ∃ start, Bracketed cs start inner ∧ classify inner = .error fault ∧
        ∀ i other, Bracketed cs i other → i < start → ∃ r, classify other = .ok r := by
  have leftmost {inner : List Char} {fault : PlaceholderFault}
      (h : segmentsOf (piecesFrom none cs) = .error (inner, fault)) :
      ∃ start, Bracketed cs start inner ∧ classify inner = .error fault ∧
        ∀ i other, Bracketed cs i other → i < start → ∃ r, classify other = .ok r := by
    obtain ⟨before, after, he, hfault, hbefore⟩ := segmentsOf_error h
    refine ⟨_, bracketed_iff.2 ⟨before, after, he, rfl⟩, hfault, ?_⟩
    intro i other hb hlt
    obtain ⟨before', after', he', rfl⟩ := bracketed_iff.1 hb
    apply hbefore
    rcases List.append_eq_append_iff.1 (he.symm.trans he') with ⟨more, rfl, -⟩ | ⟨more, rfl, hmore⟩
    · rw [piecesText, piecesText, List.flatMap_append, List.length_append] at hlt
      omega
    · cases more with
      | nil => simp at hlt
      | cons q more =>
        rw [← (List.cons.inj hmore).1]
        simp
  constructor
  · exact leftmost
  · rintro ⟨start, hb, hfault, hleft⟩
    cases hs : segmentsOf (piecesFrom none cs) with
    | ok segments =>
      obtain ⟨before, after, he, -⟩ := bracketed_iff.1 hb
      obtain ⟨r, hr⟩ := segmentsOf_ok hs (show .bracketed inner ∈ piecesFrom none cs by simp [he])
      rw [hr] at hfault
      cases hfault
    | error e =>
      obtain ⟨other, fault'⟩ := e
      obtain ⟨start', hb', hfault', hleft'⟩ := leftmost hs
      rcases Nat.lt_trichotomy start start' with hlt | rfl | hlt
      · obtain ⟨r, hr⟩ := hleft' _ _ hb hlt
        rw [hr] at hfault
        cases hfault
      · obtain rfl := hb.inner_eq hb'
        rw [hfault] at hfault'
        cases hfault'
        rfl
      · obtain ⟨r, hr⟩ := hleft _ _ hb' hlt
        rw [hr] at hfault'
        cases hfault'

theorem mem_literal {text : List Char} (h : segment ∈ literal text) :
    text ≠ [] ∧ segment = .literal (String.ofList text) := by
  rw [literal] at h
  split at h
  · cases h
  · next hne => exact ⟨hne, List.mem_singleton.1 h⟩

namespace Cut

variable {c : Cut}

theorem Of.ne_literal (h : c.Of cs) {m : Mark} (hm : m ∈ c.marks) (text : String) :
    m.segment ≠ .literal text := by
  intro he
  exact classify_ne_literal m.inner text (he ▸ (h.recognised m hm).2.2)

theorem Of.literal_mem (h : c.Of cs) {text : String} (ht : .literal text ∈ c.segments) :
    text ≠ "" ∧ (text.toList = c.rest ∨ ∃ m ∈ c.marks, text.toList = m.stretch) := by
  have hliteral {cs : List Char} (ht : .literal text ∈ literal cs) :
      text ≠ "" ∧ text.toList = cs := by
    obtain ⟨hne, he⟩ := mem_literal ht
    obtain rfl := Segment.literal.inj he
    rw [String.toList_ofList]
    exact ⟨fun he => hne (by simpa using he), rfl⟩
  rcases List.mem_append.1 ht with ht | ht
  · obtain ⟨m, hm, ht⟩ := List.mem_flatMap.1 ht
    rcases List.mem_append.1 ht with ht | ht
    · exact ⟨(hliteral ht).1, .inr ⟨m, hm, (hliteral ht).2⟩⟩
    · exact absurd (List.mem_singleton.1 ht).symm (h.ne_literal hm text)
  · exact ⟨(hliteral ht).1, .inl (hliteral ht).2⟩

theorem Of.isChain_segments (h : c.Of cs) : c.segments.IsChain fun s s' =>
    ∀ text text', ¬(s = .literal text ∧ s' = .literal text') := by
  have hliteral (text : List Char) : (literal text).IsChain fun s s' =>
      ∀ text text', ¬(s = .literal text ∧ s' = .literal text') := by
    rw [literal]
    split
    · exact .nil
    · exact .singleton _
  obtain ⟨marks, rest⟩ := c
  induction marks generalizing cs with
  | nil => exact hliteral rest
  | cons m marks ih =>
    have hm := h.ne_literal (List.mem_cons_self ..)
    rw [segments_cons, List.isChain_append, List.isChain_cons]
    refine ⟨hliteral _, ⟨?_, ih h.tail⟩, ?_⟩
    · rintro s - text text' ⟨he, -⟩
      exact hm text he
    · rintro s - s' ⟨⟩ text text' ⟨-, he⟩
      exact hm text' he

end Cut

theorem parse_eq_error_iff {source : String} {e : Error} : parse source = .error e ↔
    ∃ start inner fault, Bracketed source.toList start inner ∧ classify inner = .error fault ∧
      (∀ i other, Bracketed source.toList i other → i < start → ∃ r, classify other = .ok r) ∧
      e = .configuration (.malformedPlaceholder (String.ofList inner) source fault) := by
  constructor
  · intro h
    rw [parse] at h
    split at h
    · cases h
    · next inner fault hs =>
      obtain ⟨start, hb, hfault, hleft⟩ := segmentsOf_eq_error_iff.1 hs
      exact ⟨start, inner, fault, hb, hfault, hleft, (Except.error.inj h).symm⟩
  · rintro ⟨start, inner, fault, hb, hfault, hleft, rfl⟩
    rw [parse, segmentsOf_eq_error_iff.2 ⟨start, hb, hfault, hleft⟩]

theorem parse_eq_ok_iff {source : String} {t : Template} : parse source = .ok t ↔
    (∀ start inner, Bracketed source.toList start inner → ∃ r, classify inner = .ok r) ∧
      ∃ c : Cut, c.Of source.toList ∧ (∀ m ∈ c.marks, ∀ text, m.segment ≠ .literal text) ∧
        t = ⟨source, c.segments⟩ := by
  constructor
  · intro h
    rw [parse] at h
    split at h
    · next segments hs =>
      have hclassify : ∀ start inner, Bracketed source.toList start inner →
          ∃ r, classify inner = .ok r := by
        intro start inner hb
        obtain ⟨before, after, he, -⟩ := bracketed_iff.1 hb
        exact segmentsOf_ok hs (by simp [he])
      obtain ⟨c, hc, hsegments⟩ := exists_cut hclassify
      obtain rfl := Except.ok.inj (hs.symm.trans hsegments)
      exact ⟨hclassify, c, hc, fun m hm => hc.ne_literal hm, (Except.ok.inj h).symm⟩
    · cases h
  · rintro ⟨hclassify, c, hc, -, rfl⟩
    obtain ⟨c', hc', hsegments⟩ := exists_cut hclassify
    rw [parse, hsegments, hc.unique hc']

/-- Pairs of brackets without brackets in them do not overlap. A template fails with the leftmost of
them that is malformed; if there is none, its segments are those of the one cut at all that are
recognised, and text stands in as few segments as can be, none of which holds a placeholder. -/
theorem parse_reading (source : String) :
    (∀ i j inner other, Bracketed source.toList i inner → Bracketed source.toList j other →
      (i = j ∧ inner = other) ∨ i + inner.length + 2 ≤ j ∨ j + other.length + 2 ≤ i) ∧
    (∀ e, parse source = .error e ↔
      ∃ start inner fault, Bracketed source.toList start inner ∧ classify inner = .error fault ∧
        (∀ i other, Bracketed source.toList i other → i < start → ∃ r, classify other = .ok r) ∧
        e = .configuration (.malformedPlaceholder (String.ofList inner) source fault)) ∧
    ((∃ e, parse source = .error e) ↔
      ∃ start inner fault, Bracketed source.toList start inner ∧ classify inner = .error fault) ∧
    (∀ t, parse source = .ok t ↔
      (∀ start inner, Bracketed source.toList start inner → ∃ r, classify inner = .ok r) ∧
        ∃ c : Cut, c.Of source.toList ∧ (∀ m ∈ c.marks, ∀ text, m.segment ≠ .literal text) ∧
          t = ⟨source, c.segments⟩) ∧
    ∀ t, parse source = .ok t →
      t.segments.IsChain (fun s s' => ∀ text text', ¬(s = .literal text ∧ s' = .literal text')) ∧
      ∀ text, .literal text ∈ t.segments → text ≠ "" ∧
        ∀ start inner, Bracketed text.toList start inner → classify inner = .ok none := by
  refine ⟨fun i j inner other h h' => h.disjoint h', fun e => parse_eq_error_iff, ?_,
    fun t => parse_eq_ok_iff, ?_⟩
  · constructor
    · rintro ⟨e, he⟩
      obtain ⟨start, inner, fault, hb, hfault, -⟩ := parse_eq_error_iff.1 he
      exact ⟨start, inner, fault, hb, hfault⟩
    · rintro ⟨start, inner, fault, hb, hfault⟩
      cases hp : parse source with
      | error e => exact ⟨e, rfl⟩
      | ok t =>
        obtain ⟨r, hr⟩ := (parse_eq_ok_iff.1 hp).1 start inner hb
        rw [hr] at hfault
        cases hfault
  · intro t ht
    obtain ⟨hclassify, c, hc, -, rfl⟩ := parse_eq_ok_iff.1 ht
    refine ⟨hc.isChain_segments, ?_⟩
    intro text htext
    obtain ⟨hne, hstretch⟩ := hc.literal_mem htext
    refine ⟨hne, ?_⟩
    intro start inner hb
    obtain ⟨j, hwhole⟩ := hb.of_infix (hc.infix_of_stretch hstretch)
    obtain ⟨r, hr⟩ := hclassify _ inner hwhole
    cases r with
    | none => exact hr
    | some s => exact absurd hr (hc.not_recognised hstretch hb)

example : (parse "[a[b[name]]").map Template.segments =
    .ok [.literal "[a[b", .name, .literal "]"] := by decide +kernel

end CssModules.Template
