import CssModules.Proofs.Identifier.RoundTrip
import CssModules.Proofs.Text.Words

namespace CssModules.Identifier

/-- Whether a generated name is not empty and has no white space beside control characters. -/
def Unspaced (text : String) : Prop :=
  text ≠ "" ∧ ∀ c ∈ text.toList, Text.isSpace c → isControl c

instance (text : String) : Decidable (Unspaced text) :=
  @instDecidableAnd _ _ inferInstance
    (List.decidableBAll (fun c => Text.isSpace c → isControl c) text.toList)

theorem dropTerminators_cons (slashes digits : Nat) {c : Char} (h : c ≠ ' ' ∨ digits = 0)
    (cs : List Char) : ∃ slashes' digits', (c = '\\' → digits' = 0) ∧
      dropTerminators slashes digits (c :: cs) = c :: dropTerminators slashes' digits' cs := by
  rw [dropTerminators.eq_def]
  dsimp only
  split
  · exact ⟨_, 0, fun _ => rfl, rfl⟩
  · next hb =>
    split
    · exact ⟨slashes, digits + 1, fun he => absurd he hb, rfl⟩
    · split
      · next hspace =>
        obtain ⟨_, rfl, hlo, _⟩ := hspace
        rcases h with h | rfl
        · exact absurd rfl h
        · exact absurd hlo (by decide)
      · exact ⟨0, 0, fun he => absurd he hb, rfl⟩

theorem dropTerminators_flatMap_escapeChar {cs : List Char} (h : ∀ c ∈ cs, isLayout c = false)
    (slashes digits : Nat) :
    dropTerminators slashes digits (cs.flatMap escapeChar) = cs.flatMap escapeChar := by
  induction cs generalizing slashes digits with
  | nil => rfl
  | cons c cs ih =>
    have ih := ih fun d hd => h d (List.mem_cons_of_mem _ hd)
    rw [List.flatMap_cons, escapeChar, h c (List.mem_cons_self ..)]
    by_cases hp : isPunctuation c = true
    · simp only [hp, Bool.false_eq_true, ↓reduceIte, List.cons_append, List.nil_append]
      obtain ⟨slashes', digits', hd, he⟩ :=
        dropTerminators_cons slashes digits (c := '\\') (.inl (by decide))
          (c :: cs.flatMap escapeChar)
      obtain ⟨slashes'', digits'', _, he'⟩ :=
        dropTerminators_cons slashes' digits' (c := c) (.inr (hd rfl))
          (cs.flatMap escapeChar)
      rw [he, he', ih]
    · have hc : c ≠ ' ' := by
        rintro rfl
        exact hp rfl
      simp only [hp, Bool.false_eq_true, ↓reduceIte, List.cons_append, List.nil_append]
      obtain ⟨slashes', digits', _, he⟩ :=
        dropTerminators_cons slashes digits (.inl hc) (cs.flatMap escapeChar)
      rw [he, ih]

section Spaces

variable {c : Char}

theorem mem_escapeChar_iff {d : Char} (hd : isLayout d = false) (hc : Text.isSpace c) :
    c ∈ escapeChar d ↔ c = d := by
  have hb : c ≠ '\\' := by
    rintro rfl
    cases hc
  rw [escapeChar, hd]
  split
  · contradiction
  · split <;> simp [hb]

theorem mem_escape_iff {raw : String} (hl : ∀ d ∈ raw.toList, isLayout d = false)
    (hd : ∀ d, raw.toList.head? = some d → d.isDigit = false) (hc : Text.isSpace c) :
    c ∈ (escape raw).toList ↔ c ∈ raw.toList := by
  have hflat {ds : List Char} (h : ∀ d ∈ ds, isLayout d = false) :
      c ∈ ds.flatMap escapeChar ↔ c ∈ ds := by
    rw [List.mem_flatMap]
    constructor
    · rintro ⟨d, hd, hcd⟩
      exact (mem_escapeChar_iff (h d hd) hc).1 hcd ▸ hd
    · exact fun hm => ⟨c, hm, (mem_escapeChar_iff (h c hm) hc).2 rfl⟩
  have hb : c ≠ '\\' := by
    rintro rfl
    cases hc
  rw [toList_escape]
  generalize raw.toList = cs at hl hd
  -- A leading digit would be spelled as a hex escape, with a space behind it that is none of `raw`.
  unfold escapeGuarded
  split
  · rfl
  · next d ds =>
    split
    · have hl' : ∀ e ∈ d :: ds, isLayout e = false := fun e he => hl e (List.mem_cons_of_mem _ he)
      obtain ⟨slashes, digits, _, he⟩ := dropTerminators_cons 0 0 (c := '\\')
        (.inl (by decide)) ('-' :: (d :: ds).flatMap escapeChar)
      obtain ⟨slashes', digits', _, he'⟩ := dropTerminators_cons slashes digits
        (c := '-') (.inl (by decide)) ((d :: ds).flatMap escapeChar)
      rw [he, he', dropTerminators_flatMap_escapeChar hl', List.mem_cons, List.mem_cons, hflat hl',
        List.mem_cons]
      simp [hb]
    · rw [dropTerminators_flatMap_escapeChar hl, hflat hl]
  · next d ds _ =>
    rw [hd d rfl, if_neg Bool.false_ne_true, dropTerminators_flatMap_escapeChar hl, hflat hl]

theorem escape_eq_empty_iff {raw : String} : escape raw = "" ↔ raw = "" := by
  constructor
  · intro h
    rw [← unescape_escape raw, h]
    rfl
  · rintro rfl
    rfl

end Spaces

def normalChar (c : Char) : Char := if isReserved c || isControl c || c == '.' then '-' else c

theorem toList_normalizeLocal (raw : String) :
    (normalizeLocal raw).toList =
      if needsGuard raw.toList then '_' :: raw.toList.map normalChar
      else raw.toList.map normalChar := by
  rw [normalizeLocal, String.toList_ofList]
  rfl

theorem normalizeLocal_eq_empty_iff {raw : String} : normalizeLocal raw = "" ↔ raw = "" := by
  rw [← String.toList_eq_nil_iff, toList_normalizeLocal, ← String.toList_eq_nil_iff]
  cases raw.toList with
  | nil => simp [needsGuard]
  | cons c cs => split <;> simp

theorem isLayout_normalChar (c : Char) : isLayout (normalChar c) = false := by
  unfold normalChar
  split
  · rfl
  · next h =>
    by_contra hl
    simp only [isLayout, Bool.not_eq_false, Bool.or_eq_true, beq_iff_eq] at hl
    rcases hl with (((rfl | rfl) | rfl) | rfl) | rfl <;> exact h rfl

theorem isSpace_normalChar (c : Char) :
    Text.isSpace (normalChar c) = (Text.isSpace c && !isControl c) := by
  unfold normalChar
  cases hc : isControl c with
  | true => simp only [Bool.or_true, Bool.true_or, ↓reduceIte, Bool.not_true, Bool.and_false]; rfl
  | false =>
    simp only [Bool.or_false, Bool.not_false, Bool.and_true]
    split
    · next h =>
      simp only [isReserved, Bool.or_eq_true, beq_iff_eq] at h
      rcases h with (((((((((rfl | rfl) | rfl) | rfl) | rfl) | rfl) | rfl) | rfl) | rfl)) | rfl <;> rfl
    · rfl

theorem needsGuard_of_isDigit {c : Char} (hc : c.isDigit) (cs : List Char) :
    needsGuard (c :: cs) := by
  unfold needsGuard
  split
  · next he =>
    obtain ⟨rfl, _⟩ := List.cons.inj he
    cases hc
  · next he =>
    obtain ⟨rfl, _⟩ := List.cons.inj he
    exact hc
  · next he => cases he

theorem isDigit_head?_normalizeLocal (raw : String) {d : Char}
    (hd : (normalizeLocal raw).toList.head? = some d) : d.isDigit = false := by
  rw [toList_normalizeLocal] at hd
  split at hd
  · obtain rfl := Option.some.inj hd
    rfl
  · next hg =>
    cases hraw : raw.toList with
    | nil =>
      rw [hraw] at hd
      cases hd
    | cons c cs =>
      rw [hraw] at hd hg
      obtain rfl := Option.some.inj hd
      unfold normalChar
      split
      · rfl
      · exact Bool.eq_false_iff.2 fun hdigit => hg (needsGuard_of_isDigit hdigit cs)

/-- A spelled name is one word exactly if the name has no white space that survives its
replacement. -/
theorem isWord_escapeLocal {raw : String} : Text.IsWord (escapeLocal raw) ↔ Unspaced raw := by
  have hlayout (d : Char) (hd : d ∈ (normalizeLocal raw).toList) : isLayout d = false := by
    rw [toList_normalizeLocal] at hd
    split at hd
    · obtain rfl | hd := List.mem_cons.1 hd
      · rfl
      · obtain ⟨c, _, rfl⟩ := List.mem_map.1 hd
        exact isLayout_normalChar c
    · obtain ⟨c, _, rfl⟩ := List.mem_map.1 hd
      exact isLayout_normalChar c
  have hspace : (∀ c ∈ (normalizeLocal raw).toList, Text.isSpace c = false) ↔
      ∀ c ∈ raw.toList, Text.isSpace (normalChar c) = false := by
    rw [toList_normalizeLocal]
    have hguard : Text.isSpace '_' = false := rfl
    split <;> simp [hguard]
  have hmem {c : Char} (hs : Text.isSpace c) :
      c ∈ (escapeLocal raw).toList ↔ c ∈ (normalizeLocal raw).toList :=
    mem_escape_iff hlayout (fun _ => isDigit_head?_normalizeLocal raw) hs
  have hescape : (∀ c ∈ (escapeLocal raw).toList, Text.isSpace c = false) ↔
      ∀ c ∈ (normalizeLocal raw).toList, Text.isSpace c = false := by
    refine ⟨fun h c hc => Bool.eq_false_iff.2 fun hs => ?_,
      fun h c hc => Bool.eq_false_iff.2 fun hs => ?_⟩
    · exact Bool.false_ne_true ((h c ((hmem hs).2 hc)).symm.trans hs)
    · exact Bool.false_ne_true ((h c ((hmem hs).1 hc)).symm.trans hs)
  rw [Text.IsWord, Unspaced, hescape, hspace, escapeLocal, Ne, escape_eq_empty_iff,
    normalizeLocal_eq_empty_iff]
  simp [isSpace_normalChar]

end CssModules.Identifier
