import CssModules.Proofs.Identifier.Grammar
import CssModules.Proofs.Identifier.Unspaced

namespace CssModules.Identifier

section Bare

variable {c : Char}

/-- The characters that a name cannot hold and that escaping leaves as they are. -/
def isBare (c : Char) : Bool :=
  c.toNat ≤ 0x08 || (0x0E ≤ c.toNat && c.toNat ≤ 0x1F) || c.toNat == 0x7F

theorem isNameChar_eq_not_isBare (hl : isLayout c = false) (hp : isPunctuation c = false) :
    isNameChar c = !isBare c := by
  have hn (a b : Char) : a ≤ b ↔ a.toNat ≤ b.toNat := Iff.rfl
  have he (a b : Char) : a = b ↔ a.toNat = b.toNat := Char.toNat_inj.symm
  rw [Bool.eq_iff_iff, isNameChar_iff, isNameStart_iff]
  simp only [isLayout, isPunctuation, isBare, Bool.or_eq_false_iff, Bool.and_eq_false_iff,
    beq_eq_false_iff_ne, decide_eq_false_iff_not, Bool.not_eq_true', hn, he, ne_eq, Nat.not_le,
    Char.reduceToNat] at hl hp ⊢
  omega

theorem isBare_of_isPunctuation (h : isPunctuation c) : isBare c = false := by
  have hn (a b : Char) : a ≤ b ↔ a.toNat ≤ b.toNat := Iff.rfl
  have he (a b : Char) : a = b ↔ a.toNat = b.toNat := Char.toNat_inj.symm
  simp only [isPunctuation, Bool.or_eq_true, Bool.and_eq_true, decide_eq_true_eq, beq_iff_eq, hn,
    he, Char.reduceToNat] at h
  simp only [isBare, Bool.or_eq_false_iff, Bool.and_eq_false_iff, beq_eq_false_iff_ne,
    decide_eq_false_iff_not, Nat.not_le]
  omega

end Bare

section Spelling

theorem completesName_dropTerminators {slashes digits : Nat} {r : Reading}
    (hr : r.Behind slashes digits) (cs : List Char) :
    completesName r (dropTerminators slashes digits cs) = completesName r cs := by
  refine read_dropTerminators (fun r c cs cs' h => ?_) (fun digits value cs hd hends => ?_) hr cs
  · rw [completesName_cons, completesName_cons, h]
  · have hspace : completesName (.escape digits value) (' ' :: cs) = completesName .between cs := by
      simp [completesName_cons, Reading.admits, Reading.next, hexValue?_space]
    rw [hspace]
    cases cs with
    | nil => simp [completesName, hd]
    | cons c cs =>
      obtain ⟨hx, hs⟩ := hends c rfl
      have hd' : (digits == 0) = false := beq_eq_false_iff_ne.2 hd
      have hs' : (c == ' ') = false := beq_eq_false_iff_ne.2 hs
      simp [completesName_cons, Reading.admits, Reading.next, hx, hs', hd, hd']

theorem dropTerminators_sublist (slashes digits : Nat) (cs : List Char) :
    (dropTerminators slashes digits cs).Sublist cs := by
  induction cs generalizing slashes digits with
  | nil => exact .slnil
  | cons c cs ih =>
    by_cases hc : c = ' ' ∧ slashes ≠ 0 ∧ 1 ≤ digits ∧ digits ≤ 6
    · obtain ⟨rfl, hs, hlo, hhi⟩ := hc
      obtain ⟨-, -, hdrop⟩ | hkeep := dropTerminators_space hs hlo hhi cs
      · rw [hdrop]
        exact (ih 0 0).cons ' '
      · rw [hkeep]
        exact (ih 0 0).cons_cons ' '
    · rw [dropTerminators.eq_def]
      dsimp only
      split
      · exact (ih _ _).cons_cons c
      · split
        · exact (ih _ _).cons_cons c
        · rw [if_neg fun h => hc ⟨h.2.1, h.1, h.2.2⟩]
          exact (ih _ _).cons_cons c

theorem completesName_escapeChar (c : Char) (cs : List Char) :
    completesName .between (escapeChar c ++ cs) = (!isBare c && completesName .between cs) := by
  unfold escapeChar
  split
  · next h =>
    rcases isLayout_cases h with rfl | rfl | rfl | rfl | rfl <;> rfl
  · next hl =>
    split
    · next h =>
      rw [isBare_of_isPunctuation h]
      simp [completesName_cons, Reading.admits, Reading.next, hexValue?_of_isPunctuation h]
    · next hp =>
      have hb : c ≠ '\\' := by
        rintro rfl
        exact hp rfl
      have hb' : (c == '\\') = false := beq_eq_false_iff_ne.2 hb
      rw [← isNameChar_eq_not_isBare (Bool.eq_false_iff.2 hl) (Bool.eq_false_iff.2 hp)]
      simp [completesName_cons, Reading.admits, Reading.next, hb, hb']

theorem completesName_flatMap_escapeChar (cs : List Char) :
    completesName .between (cs.flatMap escapeChar) = cs.all fun c => !isBare c := by
  induction cs with
  | nil => rfl
  | cons c cs ih => rw [List.flatMap_cons, completesName_escapeChar, ih, List.all_cons]

theorem completesName_escapeGuarded (cs : List Char) :
    completesName .between (escapeGuarded cs) = cs.all fun c => !isBare c := by
  unfold escapeGuarded
  split
  · rfl
  · next c cs =>
    split
    · have hdash : isBare '-' = false := rfl
      rw [List.all_cons, hdash, Bool.not_false, Bool.true_and, ← completesName_flatMap_escapeChar]
      rfl
    · exact completesName_flatMap_escapeChar _
  · next c cs _ =>
    split
    · next hd =>
      have hbare : isBare c = false := by
        rw [isDigit_iff] at hd
        simp [isBare]
        omega
      have h3 : hexValue? '3' = some 3 := rfl
      have hx := hexValue?_of_isDigit hd
      have hchar : isNameChar c := isNameChar_of_hexValue? (by rw [hx]; rfl)
      rw [List.all_cons, hbare, Bool.not_false, Bool.true_and, ← completesName_flatMap_escapeChar]
      simp [completesName_cons, Reading.admits, Reading.next, h3, hx, hchar, hexValue?_space]
    · exact completesName_flatMap_escapeChar _

theorem isLayout_of_mem_escapeChar {c d : Char} (h : d ∈ escapeChar c) : isLayout d = false := by
  by_cases hl : isLayout c
  · have hall : (escapeChar c).all (!isLayout ·) = true := by
      rcases isLayout_cases hl with rfl | rfl | rfl | rfl | rfl <;> rfl
    simpa using List.all_eq_true.1 hall d h
  · rw [escapeChar, if_neg hl] at h
    split at h
    · rcases List.mem_cons.1 h with rfl | h
      · rfl
      · obtain rfl := List.mem_singleton.1 h
        exact Bool.eq_false_iff.2 hl
    · obtain rfl := List.mem_singleton.1 h
      exact Bool.eq_false_iff.2 hl

theorem isLayout_of_mem_escapeGuarded {cs : List Char} {d : Char} (h : d ∈ escapeGuarded cs) :
    isLayout d = false := by
  have hflat {cs : List Char} (h : d ∈ cs.flatMap escapeChar) : isLayout d = false := by
    obtain ⟨c, -, hc⟩ := List.mem_flatMap.1 h
    exact isLayout_of_mem_escapeChar hc
  unfold escapeGuarded at h
  split at h
  · cases h
  · split at h
    · rcases List.mem_cons.1 h with rfl | h
      · rfl
      · rcases List.mem_cons.1 h with rfl | h
        · rfl
        · exact hflat h
    · exact hflat h
  · next c cs _ =>
    split at h
    · next hd =>
      have hc : isLayout c = false := by
        rw [Bool.eq_false_iff]
        intro hl
        rcases isLayout_cases hl with rfl | rfl | rfl | rfl | rfl <;> cases hd
      simp only [List.mem_cons] at h
      rcases h with rfl | rfl | rfl | rfl | h
      · rfl
      · rfl
      · exact hc
      · rfl
      · exact hflat h
    · exact hflat h

theorem isLayout_of_mem_escape {raw : String} {d : Char} (h : d ∈ (escape raw).toList) :
    isLayout d = false := by
  rw [toList_escape] at h
  exact isLayout_of_mem_escapeGuarded ((dropTerminators_sublist 0 0 _).subset h)

theorem isName_escape_iff (raw : String) :
    IsName (escape raw).toList ↔ ∀ c ∈ raw.toList, isBare c = false := by
  have hbehind : Reading.between.Behind 0 0 := .inl rfl
  rw [isName_iff fun d hd => isLayout_of_mem_escape hd, toList_escape,
    completesName_dropTerminators hbehind, completesName_escapeGuarded]
  simp

theorem startsIdent_cons {c : Char} (hc : c ≠ '-') (cs : List Char) :
    startsIdent (c :: cs) = !c.isDigit := by
  unfold startsIdent
  split
  · next he => exact absurd (List.cons.inj he).1 hc
  · next he =>
    obtain ⟨rfl, -⟩ := List.cons.inj he
    simp [hc]
  · next he => cases he

theorem startsIdent_dropTerminators (cs : List Char) :
    startsIdent (dropTerminators 0 0 cs) = startsIdent cs := by
  cases cs with
  | nil => rfl
  | cons c cs =>
    by_cases hc : c = '-'
    · have hdash : dropTerminators 0 0 ('-' :: cs) = '-' :: dropTerminators 0 0 cs := rfl
      rw [hc, hdash]
      cases cs with
      | nil => rfl
      | cons d ds =>
        obtain ⟨es, he⟩ := List.head?_eq_some_iff.1 (head?_dropTerminators 0 (d :: ds))
        rw [he]
        rfl
    · obtain ⟨es, he⟩ := List.head?_eq_some_iff.1 (head?_dropTerminators 0 (c :: cs))
      rw [he, startsIdent_cons hc, startsIdent_cons hc]

theorem exists_escapeChar (c : Char) :
    ∃ d rest, escapeChar c = d :: rest ∧ (d = '\\' ∨ d = c) := by
  unfold escapeChar
  split
  · exact ⟨'\\', _, rfl, .inl rfl⟩
  · split
    · exact ⟨'\\', _, rfl, .inl rfl⟩
    · exact ⟨c, [], rfl, .inr rfl⟩

theorem startsIdent_escapeGuarded (cs : List Char) :
    startsIdent (escapeGuarded cs) ↔ cs ≠ [] ∧ cs ≠ ['-'] := by
  have hdash : escapeChar '-' = ['-'] := rfl
  unfold escapeGuarded
  split
  · simp [startsIdent]
  · next c cs =>
    split
    · simp [startsIdent]
    · next hg =>
      simp only [Bool.or_eq_true, not_or, Bool.not_eq_true] at hg
      obtain ⟨d, rest, he, hd⟩ := exists_escapeChar c
      have hdigit : d.isDigit = false := by
        rcases hd with rfl | rfl
        · rfl
        · exact hg.1
      rw [List.flatMap_cons, List.flatMap_cons, hdash, he]
      simp [startsIdent, hdigit]
  · next c cs hne =>
    split
    · next hdigit =>
      have hc : c ≠ '-' := by
        rintro rfl
        cases hdigit
      simp [startsIdent, hc]
    · next hdigit =>
      rw [List.flatMap_cons]
      by_cases hc : c = '-'
      · subst hc
        have hcs : cs = [] := by
          cases cs with
          | nil => rfl
          | cons d ds => exact absurd rfl (hne d ds rfl)
        rw [hcs, hdash]
        simp [startsIdent]
      · obtain ⟨d, rest, he, hd⟩ := exists_escapeChar c
        have hd' : d ≠ '-' ∧ d.isDigit = false := by
          rcases hd with rfl | rfl
          · exact ⟨by decide, rfl⟩
          · exact ⟨hc, Bool.eq_false_iff.2 hdigit⟩
        rw [he, List.cons_append, startsIdent_cons hd'.1, hd'.2]
        simp [hc]

theorem startsIdent_escape_iff (raw : String) :
    startsIdent (escape raw).toList ↔ raw ≠ "" ∧ raw ≠ "-" := by
  have hdash : raw = "-" ↔ raw.toList = ['-'] := by
    rw [← String.toList_inj]
    rfl
  rw [toList_escape, startsIdent_dropTerminators, startsIdent_escapeGuarded, Ne, Ne,
    Ne, Ne, hdash, String.toList_eq_nil_iff]

theorem isIdent_escape_iff (raw : String) : IsIdent (escape raw).toList ↔
    raw ≠ "" ∧ raw ≠ "-" ∧ ∀ c ∈ raw.toList, isBare c = false := by
  rw [isIdent_iff, isName_escape_iff, startsIdent_escape_iff, and_comm, and_assoc]

end Spelling

section Local

variable {c : Char} {raw : String}

theorem normalChar_eq_dash_iff :
    normalChar c = '-' ↔ c = '-' ∨ c = '.' ∨ isReserved c ∨ isControl c := by
  unfold normalChar
  split
  · next h =>
    simp only [Bool.or_eq_true, beq_iff_eq] at h
    refine iff_of_true rfl (.inr ?_)
    rcases h with (hr | hk) | rfl
    · exact .inr (.inl hr)
    · exact .inr (.inr hk)
    · exact .inl rfl
  · next h =>
    simp only [Bool.or_eq_true, beq_iff_eq, not_or] at h
    simp [h]

theorem isBare_normalChar : isBare (normalChar c) = (c == '\x7f') := by
  have hdel : c = '\x7f' ↔ c.toNat = 0x7F := Char.toNat_inj.symm
  rw [Bool.eq_iff_iff, beq_iff_eq]
  by_cases hc : normalChar c = '-'
  · rw [hc]
    refine ⟨fun h => absurd h (by decide), ?_⟩
    rintro rfl
    exact absurd hc (by decide)
  · have hself : normalChar c = c := by
      rw [normalChar, ite_eq_right_iff]
      intro h
      exact absurd (if_pos h) hc
    rw [normalChar_eq_dash_iff] at hc
    have hcontrol : 0x1F < c.toNat := by
      by_contra hle
      refine hc (.inr (.inr (.inr ?_)))
      simp [isControl]
      omega
    rw [hself, hdel, isBare]
    simp
    omega

def StartsLikeNumber (cs : List Char) : Prop :=
  (∃ d rest, d.isDigit = true ∧ (cs = d :: rest ∨ cs = '-' :: d :: rest)) ∨
    ∃ rest, cs = '-' :: '-' :: rest

theorem needsGuard_iff (cs : List Char) : needsGuard cs ↔ StartsLikeNumber cs := by
  unfold needsGuard StartsLikeNumber
  split
  · next c cs =>
    rw [Bool.or_eq_true, beq_iff_eq]
    constructor
    · rintro (hd | rfl)
      · exact .inl ⟨c, cs, hd, .inr rfl⟩
      · exact .inr ⟨cs, rfl⟩
    · rintro (⟨d, rest, hd, h | h⟩ | ⟨rest, h⟩)
      · obtain ⟨rfl, -⟩ := List.cons.inj h
        cases hd
      · cases h
        exact .inl hd
      · cases h
        exact .inr rfl
  · next c cs hne =>
    constructor
    · exact fun hd => .inl ⟨c, cs, hd, .inl rfl⟩
    · rintro (⟨d, rest, hd, h | h⟩ | ⟨rest, h⟩)
      · cases h
        exact hd
      · cases h
        exact absurd rfl (hne _ _ rfl)
      · cases h
        exact absurd rfl (hne _ _ rfl)
  · simp

theorem normalChar_of_isDigit (hc : c.isDigit) : normalChar c ≠ '-' := by
  have he (a b : Char) : a = b ↔ a.toNat = b.toNat := Char.toNat_inj.symm
  rw [isDigit_iff] at hc
  rw [Ne, normalChar_eq_dash_iff]
  simp only [isReserved, isControl, Bool.or_eq_true, Bool.and_eq_true, decide_eq_true_eq,
    beq_iff_eq, he, Char.reduceToNat]
  omega

theorem normalizeLocal_eq_dash_iff :
    normalizeLocal raw = "-" ↔ ∃ c, raw.toList = [c] ∧ normalChar c = '-' := by
  rw [← String.toList_inj, toList_normalizeLocal]
  split
  · next hg =>
    constructor
    · intro h
      cases h
    · rintro ⟨c, hc, hn⟩
      rw [hc, needsGuard_iff] at hg
      rcases hg with ⟨d, rest, hd, h | h⟩ | ⟨rest, h⟩
      · cases h
        exact absurd hn (normalChar_of_isDigit hd)
      · cases h
      · cases h
  · simp [List.map_eq_singleton_iff]

theorem isIdent_escapeLocal_iff : IsIdent (escapeLocal raw).toList ↔
    raw ≠ "" ∧ '\x7f' ∉ raw.toList ∧ ∀ c, raw.toList = [c] → normalChar c ≠ '-' := by
  have hmap : (∀ c ∈ raw.toList.map normalChar, isBare c = false) ↔ '\x7f' ∉ raw.toList := by
    rw [List.forall_mem_map]
    constructor
    · intro h hmem
      have hdel := h _ hmem
      rw [isBare_normalChar] at hdel
      cases hdel
    · intro h c hc
      rw [isBare_normalChar, beq_eq_false_iff_ne]
      rintro rfl
      exact h hc
  have hbare : (∀ c ∈ (normalizeLocal raw).toList, isBare c = false) ↔ '\x7f' ∉ raw.toList := by
    rw [toList_normalizeLocal]
    split
    · rw [List.forall_mem_cons, hmap]
      exact and_iff_right rfl
    · exact hmap
  rw [escapeLocal, isIdent_escape_iff, hbare, Ne, Ne, normalizeLocal_eq_empty_iff,
    normalizeLocal_eq_dash_iff]
  constructor
  · rintro ⟨hne, hdash, hdel⟩
    exact ⟨hne, hdel, fun c hc hn => hdash ⟨c, hc, hn⟩⟩
  · rintro ⟨hne, hdel, hdash⟩
    refine ⟨hne, ?_, hdel⟩
    rintro ⟨c, hc, hn⟩
    exact hdash c hc hn

/-- `escape` spells identifiers but for the empty text, a dash alone, and texts with a character
that stays bare; `escapeLocal` but for the empty text, texts with a DEL, and a single character that
a dash takes the place of. -/
theorem escape_legal_iff (raw : String) :
    (IsIdent (escape raw).toList ↔
      raw ≠ "" ∧ raw ≠ "-" ∧ ∀ c ∈ raw.toList, isBare c = false) ∧
    (IsIdent (escapeLocal raw).toList ↔
      raw ≠ "" ∧ '\x7f' ∉ raw.toList ∧
        ∀ c, raw.toList = [c] → ¬ (c = '-' ∨ c = '.' ∨ isReserved c ∨ isControl c)) ∧
    ∃ front, (unescape (escapeLocal raw)).toList = front ++ (raw.toList.map fun c =>
        if c = '.' ∨ isReserved c ∨ isControl c then '-' else c) ∧
      (StartsLikeNumber raw.toList → front = ['_']) ∧
      (¬ StartsLikeNumber raw.toList → front = []) := by
  refine ⟨isIdent_escape_iff raw, ?_, if needsGuard raw.toList then ['_'] else [], ?_, ?_, ?_⟩
  · simp only [← normalChar_eq_dash_iff]
    exact isIdent_escapeLocal_iff
  · have hmap : (fun c => if c = '.' ∨ isReserved c ∨ isControl c then '-' else c) = normalChar := by
      funext c
      simp [normalChar, or_comm]
    rw [escapeLocal, unescape_escape, toList_normalizeLocal, hmap]
    split <;> rfl
  · exact fun h => if_pos ((needsGuard_iff _).2 h)
  · exact fun h => if_neg fun hg => h ((needsGuard_iff _).1 hg)

end Local

end CssModules.Identifier
