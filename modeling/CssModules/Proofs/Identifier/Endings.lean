import CssModules.Proofs.Identifier.Unspaced
import CssModules.Proofs.Text.Trim

namespace CssModules.Identifier

variable {cs ds front : List Char} {c d : Char} {raw : String}

theorem exists_dropTerminators_append {slashes digits : Nat} {r : Reading}
    (hr : r.Behind slashes digits) (cs ds : List Char) :
    ∃ kept slashes' digits', (cs.foldl Reading.next r).Behind slashes' digits' ∧
      dropTerminators slashes digits (cs ++ ds) = kept ++ dropTerminators slashes' digits' ds := by
  induction cs generalizing slashes digits r with
  | nil => exact ⟨[], slashes, digits, hr, rfl⟩
  | cons c cs ih =>
    have keep {slashes' digits' : Nat} (hr' : (r.next c).Behind slashes' digits')
        (he : dropTerminators slashes digits (c :: (cs ++ ds)) =
          c :: dropTerminators slashes' digits' (cs ++ ds)) :
        ∃ kept slashes' digits', ((c :: cs).foldl Reading.next r).Behind slashes' digits' ∧
          dropTerminators slashes digits (c :: cs ++ ds) =
            kept ++ dropTerminators slashes' digits' ds := by
      obtain ⟨kept, slashes'', digits'', hbehind, hrest⟩ := ih hr'
      exact ⟨c :: kept, slashes'', digits'', hbehind, by rw [List.cons_append, he, hrest]; rfl⟩
    by_cases hb : c = '\\'
    · subst hb
      apply keep hr.backslash
      rw [dropTerminators.eq_def]
      exact if_pos rfl
    by_cases hx : slashes ≠ 0 ∧ isUpperHex c ∧ digits < 7
    · apply keep (hr.digit hx.1 hx.2.1 hx.2.2)
      rw [dropTerminators.eq_def]
      dsimp only
      rw [if_neg hb, if_pos hx]
    by_cases hspace : slashes ≠ 0 ∧ c = ' ' ∧ 1 ≤ digits ∧ digits ≤ 6
    · obtain ⟨hs, rfl, hlo, hhi⟩ := hspace
      have hother : (r.next ' ').Behind 0 0 := .other r (by decide)
      rcases dropTerminators_space hs hlo hhi (cs ++ ds) with ⟨-, -, hdrop⟩ | hkeep
      · obtain ⟨kept, slashes', digits', hbehind, hrest⟩ := ih hother
        exact ⟨kept, slashes', digits', hbehind, hdrop.trans hrest⟩
      · exact keep hother hkeep
    · apply keep (.other r hb)
      rw [dropTerminators.eq_def]
      dsimp only
      rw [if_neg hb, if_neg hx, if_neg hspace]

theorem foldl_next_escapeChar (c : Char) : (escapeChar c).foldl Reading.next .between = .between := by
  unfold escapeChar
  split
  · next h => rcases isLayout_cases h with rfl | rfl | rfl | rfl | rfl <;> rfl
  · split
    · next h => simp [Reading.next, hexValue?_of_isPunctuation h]
    · next h =>
      have hb : c ≠ '\\' := by
        rintro rfl
        exact h rfl
      simp [Reading.next, hb]

theorem foldl_next_flatMap_escapeChar (cs : List Char) :
    (cs.flatMap escapeChar).foldl Reading.next .between = .between := by
  induction cs with
  | nil => rfl
  | cons c cs ih => rw [List.flatMap_cons, List.foldl_append, foldl_next_escapeChar, ih]

theorem exists_escapeGuarded_concat (h : front ≠ [] ∨ d.isDigit = false) :
    ∃ before, before.foldl Reading.next .between = .between ∧
      escapeGuarded (front ++ [d]) = before ++ escapeChar d := by
  have plain (front : List Char) : ∃ before : List Char,
      before.foldl Reading.next .between = .between ∧
        (front ++ [d]).flatMap escapeChar = before ++ escapeChar d :=
    ⟨front.flatMap escapeChar, foldl_next_flatMap_escapeChar front, by simp⟩
  have behind (start : List Char) (hstart : start.foldl Reading.next .between = .between)
      (front : List Char) : ∃ before : List Char,
      before.foldl Reading.next .between = .between ∧
        start ++ (front ++ [d]).flatMap escapeChar = before ++ escapeChar d := by
    obtain ⟨before, hbefore, he⟩ := plain front
    refine ⟨start ++ before, ?_, by rw [he, List.append_assoc]⟩
    rw [List.foldl_append, hstart, hbefore]
  cases front with
  | nil =>
    have hd : d.isDigit = false := h.resolve_left (· rfl)
    exact ⟨[], rfl, by simp [escapeGuarded, hd]⟩
  | cons c front =>
    by_cases hdash : c = '-'
    · subst hdash
      obtain ⟨e, rest, he⟩ := List.exists_cons_of_ne_nil (l := front ++ [d]) (by simp)
      rw [List.cons_append, he, escapeGuarded, ← he]
      split
      · exact behind ['\\', '-'] rfl front
      · rw [← List.cons_append]
        exact plain ('-' :: front)
    · rw [List.cons_append, escapeGuarded]
      · split
        · next hc =>
          apply behind ['\\', '3', c, ' '] _ front
          have hvalue := hexValue?_of_isDigit hc
          have hthree : hexValue? '3' = some 3 := rfl
          simp [Reading.next, hvalue, hthree, hexValue?_space]
        · exact plain (c :: front)
      · rintro - - rfl
        exact absurd rfl hdash

theorem exists_escapeChar_of_isLayout (h : isLayout c = true) :
    ∃ x, isUpperHex x = true ∧ escapeChar c = ['\\', x, ' '] := by
  rcases isLayout_cases h with rfl | rfl | rfl | rfl | rfl
  · exact ⟨'9', rfl, rfl⟩
  · exact ⟨'A', rfl, rfl⟩
  · exact ⟨'B', rfl, rfl⟩
  · exact ⟨'C', rfl, rfl⟩
  · exact ⟨'D', rfl, rfl⟩

theorem dropTerminators_escape {slashes digits : Nat}
    (hodd : (if digits = 0 then slashes + 1 else 1) % 2 = 1) (hd : isUpperHex d = true) :
    dropTerminators slashes digits ['\\', d, ' '] = ['\\', d] := by
  have hb : d ≠ '\\' := by
    rintro rfl
    cases hd
  have hspace : isUpperHex ' ' = false := rfl
  generalize hs : (if digits = 0 then slashes + 1 else 1) = behind at hodd
  have hpos : behind ≠ 0 := by omega
  simp [dropTerminators, hs, hb, hd, hpos, hspace, hodd]

theorem isUpperHex_of_isDigit (h : c.isDigit) : isUpperHex c = true := by
  have hc : '0' ≤ c ∧ c ≤ '9' := by
    simpa [Char.isDigit, Char.le_def, UInt32.le_iff_toNat_le] using h
  simp [isUpperHex, hc]

/-- An escaped spelling ends with the spelling of its last character. Only a layout character, and a
digit that is all there is, end with a digit, the space behind it being dropped. -/
theorem exists_escape_concat (h : raw.toList = front ++ [d]) :
    (isLayout d = false ∧ ∃ before, (escape raw).toList = before ++ escapeChar d) ∨
      (isLayout d = true ∨ d.isDigit = true) ∧
        ∃ before x, isUpperHex x = true ∧ (escape raw).toList = before ++ [x] := by
  have hbehind : Reading.between.Behind 0 0 := .inl rfl
  rw [toList_escape, h]
  by_cases hdigit : front = [] ∧ d.isDigit = true
  · obtain ⟨rfl, hd⟩ := hdigit
    have hupper := isUpperHex_of_isDigit hd
    have hdash : d ≠ '-' ∧ d ≠ '\\' := by
      constructor <;>
      · rintro rfl
        cases hd
    refine .inr ⟨.inr hd, ['\\', '3'], d, hupper, ?_⟩
    have hthree : isUpperHex '3' = true := rfl
    have hspace : isUpperHex ' ' = false := rfl
    simp [escapeGuarded, hd, dropTerminators, hthree, hupper, hspace, hdash.2]
  · have hfront : front ≠ [] ∨ d.isDigit = false := by
      rw [Classical.not_and_iff_not_or_not, Bool.not_eq_true] at hdigit
      exact hdigit
    obtain ⟨before, hbefore, he⟩ := exists_escapeGuarded_concat hfront
    obtain ⟨kept, slashes, digits, hstate, hdrop⟩ :=
      exists_dropTerminators_append hbehind before (escapeChar d)
    rw [hbefore] at hstate
    rw [he, hdrop]
    cases hl : isLayout d with
    | false =>
      have hplain : ∀ c ∈ [d], isLayout c = false := by simp [hl]
      have hkeep := dropTerminators_flatMap_escapeChar hplain slashes digits
      rw [List.flatMap_cons, List.flatMap_nil, List.append_nil] at hkeep
      exact .inl ⟨rfl, kept, by rw [hkeep]⟩
    | true =>
      have hodd : (if digits = 0 then slashes + 1 else 1) % 2 = 1 := by
        simp only [Reading.Behind] at hstate
        split <;> omega
      obtain ⟨x, hx, hspelled⟩ := exists_escapeChar_of_isLayout hl
      rw [hspelled, dropTerminators_escape hodd hx]
      exact .inr ⟨.inl rfl, kept ++ ['\\'], x, hx, by simp⟩

section Trimming

variable {w : List Char}

theorem ne_backslash_of_isSpace (h : Text.isSpace c = true) : c ≠ '\\' := by
  rintro rfl
  cases h

theorem hexValue?_of_isSpace (h : Text.isSpace c = true) : hexValue? c = none := by
  have hn (a b : Char) : a ≤ b ↔ a.toNat ≤ b.toNat := Iff.rfl
  simp only [Text.isSpace, Bool.or_eq_true, Bool.and_eq_true, decide_eq_true_eq, beq_iff_eq] at h
  simp only [hexValue?, Bool.and_eq_true, decide_eq_true_eq, hn, Char.reduceToNat]
  rw [if_neg (by omega), if_neg (by omega), if_neg (by omega)]

theorem escapeChar_of_isSpace (h : Text.isSpace d = true) (hl : isLayout d = false) :
    escapeChar d = if d = ' ' then ['\\', ' '] else [d] := by
  split
  · next hd =>
    rw [hd]
    rfl
  · next hd =>
    have hp : isPunctuation d = false := by
      have hn (a b : Char) : a ≤ b ↔ a.toNat ≤ b.toNat := Iff.rfl
      have he (a b : Char) : a = b ↔ a.toNat = b.toNat := Char.toNat_inj.symm
      simp only [he, Char.reduceToNat] at hd
      simp only [isLayout, Bool.or_eq_false_iff, beq_eq_false_iff_ne, ne_eq, he,
        Char.reduceToNat] at hl
      simp only [Text.isSpace, Bool.or_eq_true, Bool.and_eq_true, decide_eq_true_eq,
        beq_iff_eq] at h
      simp only [isPunctuation, Bool.or_eq_false_iff, Bool.and_eq_false_iff, beq_eq_false_iff_ne,
        decide_eq_false_iff_not, ne_eq, hn, he, Char.reduceToNat]
      omega
    rw [escapeChar, hl, hp]
    rfl

/-- Blanks at the end of a spelling stand for something, unless they are one space that ends a hex
escape. -/
theorem unescapeFrom_append_ne {r : Reading} (hne : w ≠ [])
    (hw : ∀ c ∈ w, Text.isSpace c = true)
    (hspace : w = [' '] → ∀ digits value, front.foldl Reading.next r = .escape digits value →
      digits = 0) :
    unescapeFrom r (front ++ w) ≠ unescapeFrom r front := by
  intro h
  have hbehind := unescapeFrom_append_cancel (h.trans (by rw [List.append_nil]))
  revert hbehind
  obtain ⟨c, w, rfl⟩ := List.exists_cons_of_ne_nil hne
  obtain ⟨hc, hrest⟩ := List.forall_mem_cons.1 hw
  have hx := hexValue?_of_isSpace hc
  have hb := ne_backslash_of_isSpace hc
  generalize front.foldl Reading.next r = r' at hspace ⊢
  cases r' with
  | between => simp [unescapeFrom, hb]
  | escape digits value =>
    by_cases hd : digits = 0
    · simp [unescapeFrom, hx, hd, hb]
    by_cases hs : c = ' '
    · subst hs
      cases w with
      | nil => exact absurd (hspace rfl digits value rfl) hd
      | cons e w =>
        have he := ne_backslash_of_isSpace (hrest e (List.mem_cons_self ..))
        simp [unescapeFrom, hexValue?_space, hd, he]
    · simp [unescapeFrom, hx, hd, hs, hb]

/-- Whether a text ends with a blank that is kept as it is. -/
def EndsBlank (raw : String) : Prop :=
  ∃ d ∈ raw.toList.getLast?, Text.isSpace d = true ∧ isLayout d = false

instance (raw : String) : Decidable (EndsBlank raw) :=
  match h : raw.toList.getLast? with
  | none => isFalse (by simp [EndsBlank, h])
  | some d => decidable_of_iff (Text.isSpace d = true ∧ isLayout d = false) (by simp [EndsBlank, h])

theorem isSpace_of_isUpperHex (h : isUpperHex c = true) : Text.isSpace c = false := by
  by_contra hspace
  have hx := hexValue?_of_isSpace (Bool.not_eq_false _ ▸ hspace)
  have hsome := isSome_hexValue?_of_isUpperHex h
  rw [hx] at hsome
  cases hsome

theorem trimEnd_escape (h : ¬EndsBlank raw) :
    Text.trimEnd (escape raw).toList = (escape raw).toList := by
  rcases List.eq_nil_or_concat raw.toList with hnil | ⟨front, d, hd⟩
  · have hraw : raw = "" := String.toList_eq_nil_iff.1 hnil
    rw [hraw]
    rfl
  rw [List.concat_eq_append] at hd
  rcases exists_escape_concat hd with ⟨hl, before, he⟩ | ⟨-, before, x, hx, he⟩
  · have hspace : Text.isSpace d = false := by
      by_contra hspace
      exact h ⟨d, by simp [hd], by simpa using hspace, hl⟩
    obtain ⟨before', hlast⟩ : ∃ before', escapeChar d = before' ++ [d] := by
      rw [escapeChar, hl, if_neg Bool.false_ne_true]
      split
      · exact ⟨['\\'], rfl⟩
      · exact ⟨[], rfl⟩
    rw [he, hlast, ← List.append_assoc, Text.trimEnd_concat hspace]
  · rw [he, Text.trimEnd_concat (isSpace_of_isUpperHex hx)]

theorem digits_of_next_backslash {r : Reading} {digits value : Nat}
    (h : r.next '\\' = .escape digits value) : digits = 0 := by
  cases r with
  | between =>
    cases h
    rfl
  | escape read value =>
    rw [Reading.next, hexValue?_backslash] at h
    dsimp only at h
    split at h
    · cases h
      rfl
    · cases h

theorem unescape_trimEnd_escape_ne (h : EndsBlank raw) :
    unescape (String.ofList (Text.trimEnd (escape raw).toList)) ≠ raw := by
  have ne {front w : List Char} (he : (escape raw).toList = front ++ w) (hne : w ≠ [])
      (hw : ∀ c ∈ w, Text.isSpace c = true)
      (hspace : w = [' '] → ∀ digits value,
        front.foldl Reading.next .between = .escape digits value → digits = 0) :
      unescape (String.ofList front) ≠ raw := by
    intro hraw
    apply unescapeFrom_append_ne hne hw hspace
    have hescape := congrArg String.toList ((unescape_escape raw).trans hraw.symm)
    rw [unescape, unescape, he, String.toList_ofList, String.toList_ofList,
      String.toList_ofList] at hescape
    exact hescape
  obtain ⟨d, hd, hspace, hl⟩ := h
  obtain ⟨front, hfront⟩ := List.getLast?_eq_some_iff.1 hd
  have hnodigit : d.isDigit = false := by
    rw [← Bool.not_eq_true]
    intro hdigit
    have hx := hexValue?_of_isDigit hdigit
    rw [hexValue?_of_isSpace hspace] at hx
    cases hx
  obtain ⟨before, hlast⟩ : ∃ before, (escape raw).toList = before ++ escapeChar d := by
    rcases exists_escape_concat hfront with ⟨-, hbefore⟩ | ⟨hlayout | hdigit, -⟩
    · exact hbefore
    · rw [hl] at hlayout
      cases hlayout
    · rw [hnodigit] at hdigit
      cases hdigit
  rw [escapeChar_of_isSpace hspace hl] at hlast
  have hblank : ∀ c ∈ [d], Text.isSpace c = true := by simp [hspace]
  by_cases hd : d = ' '
  · -- The backslash before the space stays, and is not a part of a hex escape.
    rw [if_pos hd, List.append_cons] at hlast
    rw [hlast, Text.trimEnd_append Text.isSpace_blank, Text.trimEnd_concat rfl]
    apply ne hlast (List.cons_ne_nil _ _) Text.isSpace_blank
    intro _ digits value hstate
    rw [List.foldl_append] at hstate
    exact digits_of_next_backslash hstate
  · rw [if_neg hd] at hlast
    obtain ⟨w, hw, hbefore⟩ := Text.exists_trimEnd_append before
    rw [hlast, Text.trimEnd_append hblank]
    apply ne (w := w ++ [d]) _ (by simp)
    · exact List.forall_mem_append.2 ⟨hw, hblank⟩
    · intro hw
      have hlast := congrArg List.getLast? hw
      rw [List.getLast?_concat] at hlast
      exact absurd (Option.some.inj hlast) hd
    · rw [hlast, ← List.append_assoc, ← hbefore]

end Trimming

end CssModules.Identifier
