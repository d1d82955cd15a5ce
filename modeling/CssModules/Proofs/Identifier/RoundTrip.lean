import CssModules.Identifier.Escape
import Mathlib.Logic.Function.Basic

namespace CssModules.Identifier

theorem isLayout_cases {c : Char} (h : isLayout c) :
    c = '\t' ∨ c = '\n' ∨ c = '\x0b' ∨ c = '\x0c' ∨ c = '\r' := by
  simpa [isLayout, or_assoc] using h

theorem hexValue?_backslash : hexValue? '\\' = none := rfl

theorem hexValue?_space : hexValue? ' ' = none := rfl

theorem hexValue?_of_isDigit {c : Char} (h : c.isDigit) : hexValue? c = some (c.toNat - 48) := by
  have hc : '0' ≤ c ∧ c ≤ '9' := by
    simpa [Char.isDigit, Char.le_def, UInt32.le_iff_toNat_le] using h
  simp [hexValue?, hc]

theorem isSome_hexValue?_of_isUpperHex {c : Char} (h : isUpperHex c) : (hexValue? c).isSome := by
  simp only [isUpperHex, Bool.or_eq_true, Bool.and_eq_true, decide_eq_true_eq] at h
  unfold hexValue?
  split
  · rfl
  · split
    · rfl
    · rcases h with h | h <;> simp_all

theorem hexValue?_of_isPunctuation {c : Char} (h : isPunctuation c) : hexValue? c = none := by
  have hn (a b : Char) : a ≤ b ↔ a.toNat ≤ b.toNat := Iff.rfl
  have he (a b : Char) : a = b ↔ a.toNat = b.toNat := Char.toNat_inj.symm
  simp only [isPunctuation, Bool.or_eq_true, Bool.and_eq_true, decide_eq_true_eq, beq_iff_eq, hn,
    he, Char.reduceToNat] at h
  simp only [hexValue?, Bool.and_eq_true, decide_eq_true_eq, hn, Char.reduceToNat]
  rw [if_neg (by omega), if_neg (by omega), if_neg (by omega)]

namespace Reading

def next : Reading → Char → Reading
  | .between, c => if c = '\\' then .escape 0 0 else .between
  | .escape digits value, c =>
    match hexValue? c with
    | some d => if digits < 6 then .escape (digits + 1) (16 * value + d) else .between
    | none => if digits ≠ 0 ∧ c = '\\' then .escape 0 0 else .between

def emit : Reading → Char → List Char
  | .between, c => if c = '\\' then [] else [c]
  | .escape digits value, c =>
    match hexValue? c with
    | some _ => if digits < 6 then [] else [decodedChar value, c]
    | none =>
      if digits = 0 then [c]
      else if c = ' ' ∨ c = '\\' then [decodedChar value]
      else [decodedChar value, c]

end Reading

theorem unescapeFrom_cons (r : Reading) (c : Char) (cs : List Char) :
    unescapeFrom r (c :: cs) = r.emit c ++ unescapeFrom (r.next c) cs := by
  cases r with
  | between =>
    rw [unescapeFrom, Reading.emit, Reading.next]
    split <;> rfl
  | escape digits value =>
    rw [unescapeFrom, Reading.emit, Reading.next]
    cases hexValue? c with
    | some d =>
      dsimp only
      split <;> rfl
    | none =>
      dsimp only
      by_cases hd : digits = 0
      · simp [hd]
      · by_cases hs : c = ' '
        · subst hs
          simp [hd]
        · by_cases hb : c = '\\' <;> simp [hd, hs, hb]

theorem unescapeFrom_append_cancel {r : Reading} {front cs ds : List Char}
    (h : unescapeFrom r (front ++ cs) = unescapeFrom r (front ++ ds)) :
    unescapeFrom (front.foldl Reading.next r) cs = unescapeFrom (front.foldl Reading.next r) ds := by
  induction front generalizing r with
  | nil => exact h
  | cons c front ih =>
    rw [List.cons_append, List.cons_append, unescapeFrom_cons, unescapeFrom_cons] at h
    exact ih (List.append_cancel_left h)

theorem unescape_of_not_mem {text : String} (h : '\\' ∉ text.toList) : unescape text = text := by
  have key (cs : List Char) (hcs : '\\' ∉ cs) : unescapeFrom .between cs = cs := by
    induction cs with
    | nil => rfl
    | cons c cs ih =>
      rw [List.mem_cons, not_or] at hcs
      rw [unescapeFrom, if_neg (Ne.symm hcs.1), ih hcs.2]
  rw [unescape, key _ h, String.ofList_toList]

def EndsHex (cs : List Char) : Prop := ∀ c ∈ cs.head?, hexValue? c = none ∧ c ≠ ' '

theorem unescapeFrom_escape {digits : Nat} (hd : digits ≠ 0) (value : Nat) {cs : List Char}
    (hcs : EndsHex cs) :
    unescapeFrom (.escape digits value) cs = decodedChar value :: unescapeFrom .between cs := by
  cases cs with
  | nil => simp [unescapeFrom, hd]
  | cons c cs =>
    obtain ⟨hx, hs⟩ := hcs c rfl
    rw [unescapeFrom, unescapeFrom, hx]
    simp only [hd, ↓reduceIte, hs]
    split <;> rfl

/-- Where the reading of a spelling can stand behind so many backslashes and then so many upper-case
digits: an even number of backslashes has been read in pairs, behind an odd number the last one
starts an escape, of which a seventh digit is no longer a part. -/
def Reading.Behind (slashes digits : Nat) : Reading → Prop
  | .between => slashes % 2 = 0 ∨ digits = 7
  | .escape read _ => (slashes = 0 ∧ read ≠ 0) ∨ (slashes % 2 = 1 ∧ read = digits)

namespace Reading.Behind

variable {slashes digits : Nat} {r : Reading} {c : Char}

theorem backslash (h : r.Behind slashes digits) :
    (r.next '\\').Behind (if digits = 0 then slashes + 1 else 1) 0 := by
  cases r with
  | between =>
    have hs : (if digits = 0 then slashes + 1 else 1) % 2 = 1 := by
      simp only [Behind] at h
      split <;> omega
    exact .inr ⟨hs, rfl⟩
  | escape read value =>
    simp only [Behind] at h
    by_cases hr : read = 0
    · have hd : digits = 0 := by omega
      simp only [next, hexValue?_backslash, hr, hd, ne_eq, not_true_eq_false, false_and, ↓reduceIte]
      exact .inl (by omega)
    · have hs : (if digits = 0 then slashes + 1 else 1) % 2 = 1 := by split <;> omega
      simp only [next, hexValue?_backslash, ne_eq, hr, not_false_eq_true, and_self, ↓reduceIte]
      exact .inr ⟨hs, rfl⟩

theorem digit (h : r.Behind slashes digits) (hs : slashes ≠ 0) (hc : isUpperHex c)
    (hd : digits < 7) : (r.next c).Behind slashes (digits + 1) := by
  obtain ⟨d, hx⟩ := Option.isSome_iff_exists.1 (isSome_hexValue?_of_isUpperHex hc)
  have hb : c ≠ '\\' := by
    rintro rfl
    cases hx
  cases r with
  | between =>
    simp only [Behind] at h
    simp only [next, hb, ↓reduceIte, Behind]
    omega
  | escape read value =>
    obtain ⟨h0, _⟩ | ⟨hodd, rfl⟩ := h
    · exact absurd h0 hs
    · simp only [next, hx]
      split
      · exact .inr ⟨hodd, rfl⟩
      · exact .inr (by omega)

theorem escape (h : r.Behind slashes digits) (hodd : slashes % 2 = 1) (hd : digits ≤ 6) :
    ∃ value, r = .escape digits value := by
  cases r with
  | between =>
    simp only [Behind] at h
    omega
  | escape read value =>
    obtain ⟨rfl, _⟩ | ⟨_, rfl⟩ := h
    · cases hodd
    · exact ⟨value, rfl⟩

theorem other (r : Reading) (hc : c ≠ '\\') : (r.next c).Behind 0 0 := by
  cases r with
  | between => simp [next, hc, Behind]
  | escape read value =>
    simp only [next, hc, and_false, ↓reduceIte]
    split
    · split <;> simp [Behind]
    · simp [Behind]

end Reading.Behind

theorem head?_dropTerminators (digits : Nat) (cs : List Char) :
    (dropTerminators 0 digits cs).head? = cs.head? := by
  cases cs with
  | nil => rfl
  | cons c cs =>
    rw [dropTerminators.eq_def]
    by_cases hb : c = '\\' <;> simp [hb]

theorem dropTerminators_space {slashes digits : Nat} (hs : slashes ≠ 0) (hlo : 1 ≤ digits)
    (hhi : digits ≤ 6) (cs : List Char) :
    (EndsHex cs ∧ slashes % 2 = 1 ∧
      dropTerminators slashes digits (' ' :: cs) = dropTerminators 0 0 cs) ∨
    dropTerminators slashes digits (' ' :: cs) = ' ' :: dropTerminators 0 0 cs := by
  have hx : isUpperHex ' ' = false := rfl
  cases cs with
  | nil =>
    by_cases hodd : slashes % 2 = 1
    · refine .inl ⟨nofun, hodd, ?_⟩
      simp [dropTerminators.eq_def, hx, hs, hlo, hhi, hodd]
    · refine .inr ?_
      simp [dropTerminators.eq_def, hx, hs, hlo, hhi, Nat.mod_two_ne_one.1 hodd]
  | cons d cs =>
    by_cases hd : hexValue? d = none ∧ d ≠ ' ' ∧ slashes % 2 = 1
    · obtain ⟨hd, hspace, hodd⟩ := hd
      refine .inl ⟨?_, hodd, ?_⟩
      · intro e he
        cases he
        exact ⟨hd, hspace⟩
      · rw [dropTerminators.eq_def]
        simp [hx, hs, hlo, hhi, hd, hspace, hodd]
    · refine .inr ?_
      have hkeep : ((hexValue? d).isSome || d == ' ' || slashes % 2 == 0) = true := by
        by_contra hn
        simp only [Bool.or_eq_true, not_or, beq_iff_eq, Option.not_isSome_iff_eq_none] at hn
        exact hd ⟨hn.1.1, hn.1.2, Nat.mod_two_ne_zero.1 hn.2⟩
      rw [dropTerminators.eq_def]
      simp [hx, hs, hlo, hhi, hkeep]

/-- What reads a spelling character by character, and takes no notice of a space behind a hex escape
that ends there anyway, takes no notice of the spaces that are dropped. -/
theorem read_dropTerminators {α : Type} {f : Reading → List Char → α}
    (hstep : ∀ r c cs cs', f (r.next c) cs = f (r.next c) cs' → f r (c :: cs) = f r (c :: cs'))
    (hspace : ∀ digits value cs, digits ≠ 0 → EndsHex cs →
      f (.escape digits value) (' ' :: cs) = f (.escape digits value) cs)
    {slashes digits : Nat} {r : Reading} (hr : r.Behind slashes digits) (cs : List Char) :
    f r (dropTerminators slashes digits cs) = f r cs := by
  -- Both walk the spelling together, and `Behind` is what their two states have to do with each
  -- other; only a dropped space makes them part, and `EndsHex` brings them together again.
  induction cs generalizing slashes digits r with
  | nil => rfl
  | cons c cs ih =>
    by_cases hc : c = ' ' ∧ slashes ≠ 0 ∧ 1 ≤ digits ∧ digits ≤ 6
    · obtain ⟨rfl, hs, hlo, hhi⟩ := hc
      have hother := hstep r ' ' _ _ (ih (.other r nofun))
      obtain ⟨hends, hodd, hdrop⟩ | hkeep := dropTerminators_space hs hlo hhi cs
      · obtain ⟨value, rfl⟩ := hr.escape hodd hhi
        have hends' : EndsHex (dropTerminators 0 0 cs) := by
          rwa [EndsHex, head?_dropTerminators]
        rw [hdrop, ← hspace digits value _ (by omega) hends', hother]
      · rw [hkeep, hother]
    · rw [dropTerminators.eq_def]
      dsimp only
      split
      · next hb =>
        subst hb
        exact hstep r _ _ _ (ih hr.backslash)
      · next hb =>
        split
        · next hx => exact hstep r c _ _ (ih (hr.digit hx.1 hx.2.1 hx.2.2))
        · rw [if_neg fun h => hc ⟨h.2.1, h.1, h.2.2⟩]
          exact hstep r c _ _ (ih (.other r hb))

theorem unescapeFrom_dropTerminators {slashes digits : Nat} {r : Reading}
    (hr : r.Behind slashes digits) (cs : List Char) :
    unescapeFrom r (dropTerminators slashes digits cs) = unescapeFrom r cs := by
  refine read_dropTerminators (fun r c cs cs' h => ?_) (fun digits value cs hd hends => ?_) hr cs
  · rw [unescapeFrom_cons, unescapeFrom_cons, h]
  · rw [unescapeFrom_escape hd value hends, unescapeFrom, hexValue?_space]
    simp [hd]

theorem decodedChar_toNat {c : Char} (h : c.toNat ≠ 0) : decodedChar c.toNat = c := by
  have hv : c.toNat.isValidChar := c.valid
  have hc := Char.ofNat_toNat c
  rw [Char.ofNat, dif_pos hv] at hc
  rw [decodedChar, dif_pos ⟨hv, h⟩, hc]

theorem unescapeFrom_escapeChar (c : Char) (cs : List Char) :
    unescapeFrom .between (escapeChar c ++ cs) = c :: unescapeFrom .between cs := by
  unfold escapeChar
  split
  · next h =>
    rcases isLayout_cases h with rfl | rfl | rfl | rfl | rfl <;> rfl
  · split
    · next h => simp [unescapeFrom, hexValue?_of_isPunctuation h]
    · next h =>
      have hb : c ≠ '\\' := by
        rintro rfl
        exact h rfl
      simp [unescapeFrom, hb]

theorem unescapeFrom_flatMap_escapeChar (cs : List Char) :
    unescapeFrom .between (cs.flatMap escapeChar) = cs := by
  induction cs with
  | nil => rfl
  | cons c cs ih => rw [List.flatMap_cons, unescapeFrom_escapeChar, ih]

theorem unescapeFrom_leadingDigit {c : Char} (h : c.isDigit) (cs : List Char) :
    unescapeFrom .between ('\\' :: '3' :: c :: ' ' :: cs) = c :: unescapeFrom .between cs := by
  have hc : 48 ≤ c.toNat ∧ c.toNat ≤ 57 := by
    simpa [Char.isDigit, UInt32.le_iff_toNat_le] using h
  have hv : 16 * 3 + (c.toNat - 48) = c.toNat := by omega
  have h3 : hexValue? '3' = some 3 := rfl
  simp [unescapeFrom, h3, hexValue?_of_isDigit h, hexValue?_space, hv,
    decodedChar_toNat (c := c) (by omega)]

theorem unescapeFrom_escapeGuarded (cs : List Char) :
    unescapeFrom .between (escapeGuarded cs) = cs := by
  unfold escapeGuarded
  split
  · rfl
  · next c cs =>
    split
    · have hm : hexValue? '-' = none := rfl
      simp only [unescapeFrom, ↓reduceIte, hm]
      rw [unescapeFrom_flatMap_escapeChar]
    · exact unescapeFrom_flatMap_escapeChar _
  · next c cs _ =>
    split
    · next hd => rw [unescapeFrom_leadingDigit hd, unescapeFrom_flatMap_escapeChar]
    · exact unescapeFrom_flatMap_escapeChar _

theorem toList_escape (raw : String) :
    (escape raw).toList = dropTerminators 0 0 (escapeGuarded raw.toList) := by
  rw [escape, stripRedundantSpaces, String.toList_ofList, String.toList_ofList]

/-- Every text comes back from its escaped spelling. -/
theorem unescape_escape (raw : String) : unescape (escape raw) = raw := by
  have h : Reading.between.Behind 0 0 := .inl rfl
  rw [unescape, toList_escape, unescapeFrom_dropTerminators h,
    unescapeFrom_escapeGuarded, String.ofList_toList]

/-- Escaping loses nothing: reading takes every escaped spelling back to its text, so no two texts
have the same one. -/
theorem escape_lossless :
    (∀ raw, unescape (escape raw) = raw) ∧ Function.Injective escape :=
  ⟨unescape_escape, Function.LeftInverse.injective unescape_escape⟩

example : escape "\\\t" = "\\\\\\9" ∧ escape "0abc" = "\\30 abc" := by decide +kernel

end CssModules.Identifier
