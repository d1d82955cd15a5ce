import CssModules.Proofs.Identifier.RoundTrip

namespace CssModules.Identifier

def isNameStart (c : Char) : Bool := c.isAlpha || c == '_' || 0x80 ≤ c.toNat

def isNameChar (c : Char) : Bool := isNameStart c || c.isDigit || c == '-'

def isNewline (c : Char) : Bool := c == '\n' || c == '\r' || c == '\x0c'

def terminators : List (List Char) := [[], [' '], ['\t'], ['\n'], ['\r'], ['\x0c'], ['\r', '\n']]

/-- An escape: behind a backslash a character that is no hex digit and breaks no line, or one to six
hex digits and their terminator. -/
inductive IsEscape : List Char → Prop where
  | literal {c : Char} : isNewline c = false → hexValue? c = none → IsEscape ['\\', c]
  | hex {digits terminator : List Char} : digits ≠ [] → digits.length ≤ 6 →
      (∀ d ∈ digits, (hexValue? d).isSome) → terminator ∈ terminators →
      IsEscape ('\\' :: (digits ++ terminator))

/-- What an identifier goes on with: name characters and escapes. -/
inductive IsName : List Char → Prop where
  | nil : IsName []
  | plain {c : Char} {cs : List Char} : isNameChar c → IsName cs → IsName (c :: cs)
  | escape {e cs : List Char} : IsEscape e → IsName cs → IsName (e ++ cs)

/-- What an identifier starts with, a dash aside. -/
inductive IsStart : List Char → Prop where
  | plain {c : Char} : isNameStart c → IsStart [c]
  | escape {e : List Char} : IsEscape e → IsStart e

/-- An identifier of CSS: a start with or without a dash in front, or two dashes, and then a name. -/
inductive IsIdent : List Char → Prop where
  | plain {start cs : List Char} : IsStart start → IsName cs → IsIdent (start ++ cs)
  | dash {start cs : List Char} : IsStart start → IsName cs → IsIdent ('-' :: (start ++ cs))
  | dashes {cs : List Char} : IsName cs → IsIdent ('-' :: '-' :: cs)

namespace Reading

def admits : Reading → Char → Bool
  | .between, c => c == '\\' || isNameChar c
  | .escape digits _, c => digits == 0 || c == ' ' || c == '\\' || isNameChar c

end Reading

/-- Whether a text completes a name, every escape being read as far as it goes. -/
def completesName : Reading → List Char → Bool
  | .between, [] => true
  | .escape digits _, [] => digits != 0
  | r, c :: cs => r.admits c && completesName (r.next c) cs

theorem completesName_cons (r : Reading) (c : Char) (cs : List Char) :
    completesName r (c :: cs) = (r.admits c && completesName (r.next c) cs) := by
  cases r <;> rfl

def startsIdent : List Char → Bool
  | '-' :: c :: _ => !c.isDigit
  | c :: _ => !c.isDigit && c != '-'
  | [] => false

section Codes

variable {c : Char}

theorem isDigit_iff : c.isDigit ↔ 48 ≤ c.toNat ∧ c.toNat ≤ 57 := by
  simp [Char.isDigit, UInt32.le_iff_toNat_le]

theorem isUpper_iff : c.isUpper ↔ 65 ≤ c.toNat ∧ c.toNat ≤ 90 := by
  have h : c.isUpper = decide (c.val ≥ 'A'.val ∧ c.val ≤ 'Z'.val) := rfl
  rw [h, decide_eq_true_iff]
  exact Iff.rfl

theorem isLower_iff : c.isLower ↔ 97 ≤ c.toNat ∧ c.toNat ≤ 122 := by
  have h : c.isLower = (decide (c.val ≥ 'a'.val) && decide (c.val ≤ 'z'.val)) := rfl
  rw [h, Bool.and_eq_true, decide_eq_true_iff, decide_eq_true_iff]
  exact Iff.rfl

theorem isNameStart_iff : isNameStart c ↔ (65 ≤ c.toNat ∧ c.toNat ≤ 90) ∨
    (97 ≤ c.toNat ∧ c.toNat ≤ 122) ∨ c.toNat = 95 ∨ 128 ≤ c.toNat := by
  have he : c = '_' ↔ c.toNat = 95 := Char.toNat_inj.symm
  have halpha : c.isAlpha = (c.isUpper || c.isLower) := rfl
  rw [isNameStart, halpha]
  simp [isUpper_iff, isLower_iff, he, or_assoc]

theorem isNameChar_iff :
    isNameChar c ↔ isNameStart c ∨ (48 ≤ c.toNat ∧ c.toNat ≤ 57) ∨ c.toNat = 45 := by
  have he : c = '-' ↔ c.toNat = 45 := Char.toNat_inj.symm
  rw [isNameChar, Bool.or_eq_true, Bool.or_eq_true, isDigit_iff, beq_iff_eq, he, or_assoc]

theorem isNameChar_of_hexValue? (h : (hexValue? c).isSome) : isNameChar c := by
  have hn (a b : Char) : a ≤ b ↔ a.toNat ≤ b.toNat := Iff.rfl
  rw [isNameChar_iff, isNameStart_iff]
  simp only [hexValue?, Bool.and_eq_true, decide_eq_true_eq, hn, Char.reduceToNat] at h
  split at h
  · omega
  · split at h
    · omega
    · split at h
      · omega
      · cases h

end Codes

section Grammar

variable {cs : List Char}

theorem completesName_escape {digits : Nat} (hd : digits ≠ 0) (value : Nat)
    (h : completesName .between cs) : completesName (.escape digits value) cs := by
  induction cs generalizing digits value with
  | nil => simpa [completesName] using hd
  | cons c cs ih =>
    rw [completesName_cons, Bool.and_eq_true] at h ⊢
    obtain ⟨hadmits, hrest⟩ := h
    have hadmits' : Reading.admits (.escape digits value) c := by
      simp only [Reading.admits, Bool.or_eq_true] at hadmits ⊢
      exact hadmits.imp .inr id
    refine ⟨hadmits', ?_⟩
    by_cases hb : c = '\\'
    · subst hb
      simpa [Reading.next, hexValue?_backslash, hd] using hrest
    · have hrest' : completesName .between cs := by simpa [Reading.next, hb] using hrest
      simp only [Reading.next]
      split
      · split
        · exact ih (Nat.succ_ne_zero _) _ hrest'
        · exact hrest'
      · simpa [hb] using hrest'

theorem completesName_hex {digits rest : List Char} (hdigits : ∀ d ∈ digits, (hexValue? d).isSome)
    {read : Nat} (value : Nat) (hread : read + digits.length ≤ 6) (hne : read ≠ 0 ∨ digits ≠ [])
    (hrest : ∀ read value, read ≠ 0 → completesName (.escape read value) rest) :
    completesName (.escape read value) (digits ++ rest) := by
  induction digits generalizing read value with
  | nil => exact hrest read value (hne.resolve_right (· rfl))
  | cons d digits ih =>
    obtain ⟨hd, hdigits⟩ := List.forall_mem_cons.1 hdigits
    have hadmits : Reading.admits (.escape read value) d := by
      simp [Reading.admits, isNameChar_of_hexValue? hd]
    obtain ⟨v, hv⟩ := Option.isSome_iff_exists.1 hd
    rw [List.length_cons] at hread
    rw [List.cons_append, completesName_cons, hadmits, Bool.true_and]
    simp only [Reading.next, hv, if_pos (show read < 6 by omega)]
    exact ih hdigits _ (by omega) (.inl (Nat.succ_ne_zero _))

theorem eq_of_mem_terminators {t : List Char} (h : t ∈ terminators)
    (hl : ∀ c ∈ t, isLayout c = false) : t = [] ∨ t = [' '] := by
  simp only [terminators, List.mem_cons, List.not_mem_nil, or_false] at h
  rcases h with rfl | rfl | rfl | rfl | rfl | rfl | rfl
  · exact .inl rfl
  · exact .inr rfl
  all_goals exact absurd (hl _ (List.mem_cons_self ..)) (by decide)

theorem IsEscape.completesName_append {e : List Char} (he : IsEscape e)
    (hl : ∀ c ∈ e, isLayout c = false) (h : completesName .between cs) :
    completesName .between (e ++ cs) := by
  have hslash (cs : List Char) :
      completesName .between ('\\' :: cs) = completesName (.escape 0 0) cs := by
    simp [completesName_cons, Reading.admits, Reading.next]
  cases he with
  | @literal c hn hx =>
    rw [List.cons_append, hslash, List.singleton_append, completesName_cons, Reading.next, hx]
    simpa [Reading.admits] using h
  | @hex digits terminator hne hlen hdigits ht =>
    rw [List.cons_append, hslash, List.append_assoc]
    refine completesName_hex hdigits 0 (by omega) (.inr hne) fun read value hread => ?_
    rcases eq_of_mem_terminators ht fun c hc => hl c (by simp [hc]) with rfl | rfl
    · exact completesName_escape hread value h
    · rw [List.singleton_append, completesName_cons, Reading.next, hexValue?_space]
      simpa [Reading.admits] using h

theorem IsName.completesName (h : IsName cs) (hl : ∀ c ∈ cs, isLayout c = false) :
    Identifier.completesName .between cs := by
  induction h with
  | nil => rfl
  | @plain c cs hc _ ih =>
    have hb : c ≠ '\\' := by
      rintro rfl
      cases hc
    rw [completesName_cons, Reading.admits, hc, Bool.or_true, Bool.true_and, Reading.next, if_neg hb]
    exact ih fun d hd => hl d (List.mem_cons_of_mem _ hd)
  | escape he _ ih =>
    exact he.completesName_append (fun c hc => hl c (List.mem_append_left _ hc))
      (ih fun c hc => hl c (List.mem_append_right _ hc))

theorem IsName.append {a b : List Char} (ha : IsName a) (hb : IsName b) : IsName (a ++ b) := by
  induction ha with
  | nil => exact hb
  | plain hc _ ih => exact .plain hc ih
  | escape he _ ih =>
    rw [List.append_assoc]
    exact .escape he ih

theorem IsEscape.isName {e : List Char} (he : IsEscape e) : IsName e := by
  have h := IsName.escape he .nil
  rwa [List.append_nil] at h

def Reading.Seen : Reading → List Char → Prop
  | .between, seen => seen = []
  | .escape read _, seen => ∃ digits : List Char, seen = '\\' :: digits ∧ digits.length = read ∧
      read ≤ 6 ∧ ∀ d ∈ digits, (hexValue? d).isSome

theorem Reading.seen_between : Reading.Seen .between [] := rfl

theorem Reading.seen_backslash : Reading.Seen (.escape 0 0) ['\\'] :=
  ⟨[], rfl, rfl, by omega, nofun⟩

theorem Reading.Seen.next {r : Reading} {seen : List Char} {c : Char} (hseen : r.Seen seen)
    (hadmits : r.admits c) (hc : isLayout c = false) :
    ∃ done seen', IsName done ∧ (r.next c).Seen seen' ∧ seen ++ [c] = done ++ seen' := by
  cases r with
  | between =>
    obtain rfl := hseen
    by_cases hb : c = '\\'
    · subst hb
      exact ⟨[], ['\\'], .nil, seen_backslash, rfl⟩
    · have hchar : isNameChar c := by simpa [admits, hb] using hadmits
      rw [Reading.next, if_neg hb]
      exact ⟨[c], [], .plain hchar .nil, seen_between, rfl⟩
  | escape read value =>
    obtain ⟨digits, rfl, rfl, hlen, hdigits⟩ := hseen
    have whole (hne : digits ≠ []) {t : List Char} (ht : t ∈ terminators) :
        IsName ('\\' :: (digits ++ t)) :=
      (IsEscape.hex hne hlen hdigits ht).isName
    have whole' (hne : digits ≠ []) : IsName ('\\' :: digits) := by
      simpa using whole hne (List.mem_cons_self ..)
    rw [Reading.next]
    cases hx : hexValue? c with
    | some v =>
      dsimp only
      have hhex : (hexValue? c).isSome := by rw [hx]; rfl
      by_cases hlt : digits.length < 6
      · refine ⟨[], '\\' :: (digits ++ [c]), .nil, ?_, rfl⟩
        rw [if_pos hlt]
        refine ⟨digits ++ [c], rfl, List.length_append, hlt, ?_⟩
        rw [List.forall_mem_append, List.forall_mem_singleton]
        exact ⟨hdigits, hhex⟩
      · have hne : digits ≠ [] := by
          rintro rfl
          exact hlt (by decide)
        refine ⟨'\\' :: digits ++ [c], [], ?_, ?_, by simp⟩
        · exact (whole' hne).append (.plain (isNameChar_of_hexValue? hhex) .nil)
        · rw [if_neg hlt]
          exact seen_between
    | none =>
      by_cases hzero : digits = []
      · subst hzero
        have hn : isNewline c = false := by
          simp only [isLayout, Bool.or_eq_false_iff] at hc
          simp [isNewline, hc]
        exact ⟨['\\', c], [], (IsEscape.literal hn hx).isName, seen_between, rfl⟩
      · have hlength : digits.length ≠ 0 := fun h => hzero (List.length_eq_zero_iff.1 h)
        by_cases hb : c = '\\'
        · rw [if_pos ⟨hlength, hb⟩, hb]
          exact ⟨'\\' :: digits, ['\\'], whole' hzero, seen_backslash, rfl⟩
        · refine ⟨'\\' :: digits ++ [c], [], ?_, ?_, by simp⟩
          · by_cases hs : c = ' '
            · rw [hs]
              exact whole hzero (List.mem_cons_of_mem _ (List.mem_cons_self ..))
            · have hchar : isNameChar c := by simpa [admits, hzero, hs, hb] using hadmits
              exact (whole' hzero).append (.plain hchar .nil)
          · rw [if_neg fun h => hb h.2]
            exact seen_between

theorem isName_of_completesName {r : Reading} {seen : List Char} (hseen : r.Seen seen)
    (hl : ∀ c ∈ cs, isLayout c = false) (h : completesName r cs) : IsName (seen ++ cs) := by
  induction cs generalizing r seen with
  | nil =>
    cases r with
    | between =>
      obtain rfl := hseen
      exact .nil
    | escape read value =>
      obtain ⟨digits, rfl, rfl, hlen, hdigits⟩ := hseen
      have hne : digits ≠ [] := by
        rintro rfl
        cases h
      have hescape : IsEscape ('\\' :: (digits ++ [])) :=
        .hex hne hlen hdigits (List.mem_cons_self ..)
      exact hescape.isName
  | cons c cs ih =>
    obtain ⟨hc, hcs⟩ := List.forall_mem_cons.1 hl
    rw [completesName_cons, Bool.and_eq_true] at h
    obtain ⟨done, seen', hdone, hseen', he⟩ := hseen.next h.1 hc
    rw [List.append_cons, he, List.append_assoc]
    exact hdone.append (ih hseen' hcs h.2)

/-- Without layout characters a name is what is read to its end, each escape as far as it goes. -/
theorem isName_iff (hl : ∀ c ∈ cs, isLayout c = false) : IsName cs ↔ completesName .between cs :=
  ⟨fun h => h.completesName hl, isName_of_completesName Reading.seen_between hl⟩

theorem IsStart.isName {start : List Char} (h : IsStart start) : IsName start := by
  cases h with
  | plain hc => exact .plain (isNameChar_iff.2 (.inl hc)) .nil
  | escape he => exact he.isName

theorem IsStart.startsIdent_append {start : List Char} (h : IsStart start) (cs : List Char) :
    startsIdent (start ++ cs) ∧ startsIdent ('-' :: (start ++ cs)) := by
  cases h with
  | @plain c hc =>
    have hd : c.isDigit = false := by
      rw [Bool.eq_false_iff, Ne, isDigit_iff]
      rw [isNameStart_iff] at hc
      omega
    have hm : c ≠ '-' := by
      rintro rfl
      cases hc
    simp [startsIdent, hd, hm]
  | escape he => cases he <;> simp [startsIdent]

theorem IsName.isIdent (h : IsName cs) (hstart : startsIdent cs) : IsIdent cs := by
  have hplain {c : Char} (hc : isNameChar c) (hd : c.isDigit = false) (hm : c ≠ '-') :
      IsStart [c] := by
    have hs : isNameStart c := by simpa [isNameChar, hd, hm] using hc
    exact .plain hs
  cases h with
  | nil => cases hstart
  | escape he hcs => exact .plain (.escape he) hcs
  | @plain c cs hc hcs =>
    by_cases hm : c = '-'
    · subst hm
      cases hcs with
      | nil => cases hstart
      | escape he hcs => exact .dash (.escape he) hcs
      | @plain d ds hd hds =>
        by_cases hm : d = '-'
        · rw [hm]
          exact .dashes hds
        · have hdigit : d.isDigit = false := by simpa [startsIdent] using hstart
          exact .dash (hplain hd hdigit hm) hds
    · have hdigit : c.isDigit = false := by
        unfold startsIdent at hstart
        split at hstart <;> simp_all
      exact .plain (hplain hc hdigit hm) hcs

theorem isIdent_iff : IsIdent cs ↔ IsName cs ∧ startsIdent cs := by
  constructor
  · intro h
    cases h with
    | plain hs hcs => exact ⟨hs.isName.append hcs, (hs.startsIdent_append _).1⟩
    | dash hs hcs => exact ⟨.plain rfl (hs.isName.append hcs), (hs.startsIdent_append _).2⟩
    | dashes hcs => exact ⟨.plain rfl (.plain rfl hcs), rfl⟩
  · exact fun h => h.1.isIdent h.2

end Grammar

end CssModules.Identifier
