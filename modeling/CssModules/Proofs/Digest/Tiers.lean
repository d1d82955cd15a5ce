import CssModules.Digest.Spec
import Mathlib.Data.List.TakeWhile

namespace CssModules.Digest

def lasting? (c : Char) : Option Char :=
  if c = '/' then some '_' else if c.isAlphanum || c == '_' then some c else none

/-- Whether nothing but digits is left of a text at most. -/
def Fades (text : List Char) : Prop := ∀ c ∈ text, c.isDigit = true ∨ lasting? c = none

def startsWithDigit (text : List Char) : Bool := text.head?.any Char.isDigit

/-- Whether a digit comes to the front of a text: only dropped characters are before it, behind the
digits that the text starts with. -/
def DigitSurfaces (text : List Char) : Prop :=
  ∃ digits dropped d rest, text = digits ++ (dropped ++ d :: rest) ∧
    (∀ c ∈ digits, c.isDigit = true) ∧ dropped ≠ [] ∧ (∀ c ∈ dropped, lasting? c = none) ∧
    d.isDigit = true

def accumulate (tier : Nat → List Char) : Nat → List Char
  | 0 => []
  | k + 1 => identifierSafe (accumulate tier k ++ tier k)

section Characters

variable {c d : Char}

theorem lasting?_of_isAlphanum (h : c.isAlphanum = true) : lasting? c = some c := by
  have hne : c ≠ '/' := by
    rintro rfl
    exact absurd h (by decide)
  rw [lasting?, if_neg hne, h]
  rfl

theorem lasting?_of_isDigit (h : c.isDigit = true) : lasting? c = some c := by
  apply lasting?_of_isAlphanum
  rw [Char.isAlphanum, h, Bool.or_true]

theorem isSafe_of_lasting? (h : lasting? c = some d) : d.isAlphanum = true ∨ d = '_' := by
  unfold lasting? at h
  split at h
  · cases h
    exact .inr rfl
  · split at h
    · next hsafe =>
      cases h
      simpa using hsafe
    · cases h

theorem lasting?_of_isSafe (h : c.isAlphanum = true ∨ c = '_') : lasting? c = some c := by
  rcases h with h | rfl
  · exact lasting?_of_isAlphanum h
  · rfl

theorem isDigit_of_lasting? (h : lasting? c = some d) : d.isDigit = c.isDigit := by
  unfold lasting? at h
  split at h
  · next hslash =>
    cases h
    rw [hslash]
    rfl
  · split at h
    · cases h
      rfl
    · cases h

end Characters

section Texts

variable {text digits kept : List Char}

theorem identifierSafe_eq (text : List Char) :
    identifierSafe text = (text.dropWhile Char.isDigit).filterMap lasting? := rfl

theorem identifierSafe_append_of_digits (h : ∀ c ∈ digits, c.isDigit = true) (text : List Char) :
    identifierSafe (digits ++ text) = identifierSafe text := by
  rw [identifierSafe_eq, identifierSafe_eq, List.dropWhile_append_of_pos h]

theorem isSafe_of_mem_identifierSafe {c : Char} (h : c ∈ identifierSafe text) :
    c.isAlphanum = true ∨ c = '_' := by
  rw [identifierSafe_eq] at h
  obtain ⟨d, -, hd⟩ := List.mem_filterMap.1 h
  exact isSafe_of_lasting? hd

theorem digits_or_exists (text : List Char) :
    (∀ c ∈ text, c.isDigit = true) ∨ ∃ digits c rest, text = digits ++ c :: rest ∧
      (∀ d ∈ digits, d.isDigit = true) ∧ c.isDigit = false := by
  induction text with
  | nil => exact .inl nofun
  | cons c text ih =>
    cases hc : c.isDigit with
    | false => exact .inr ⟨[], c, text, rfl, nofun, hc⟩
    | true =>
      rcases ih with h | ⟨digits, d, rest, rfl, hdigits, hd⟩
      · exact .inl (List.forall_mem_cons.2 ⟨hc, h⟩)
      · exact .inr ⟨c :: digits, d, rest, rfl, List.forall_mem_cons.2 ⟨hc, hdigits⟩, hd⟩

theorem startsWithDigit_filterMap (text : List Char) :
    startsWithDigit (text.filterMap lasting?) = true ↔ ∃ dropped d rest,
      text = dropped ++ d :: rest ∧ (∀ c ∈ dropped, lasting? c = none) ∧ d.isDigit = true := by
  constructor
  · intro h
    induction text with
    | nil => cases h
    | cons c text ih =>
      cases hc : lasting? c with
      | none =>
        rw [List.filterMap_cons_none hc] at h
        obtain ⟨dropped, d, rest, rfl, hdropped, hd⟩ := ih h
        exact ⟨c :: dropped, d, rest, rfl, List.forall_mem_cons.2 ⟨hc, hdropped⟩, hd⟩
      | some d =>
        rw [List.filterMap_cons_some hc] at h
        refine ⟨[], c, text, rfl, nofun, ?_⟩
        rw [← isDigit_of_lasting? hc]
        exact h
  · rintro ⟨dropped, d, rest, rfl, hdropped, hd⟩
    rw [List.filterMap_append, List.filterMap_eq_nil_iff.2 hdropped,
      List.filterMap_cons_some (lasting?_of_isDigit hd)]
    exact hd

theorem startsWithDigit_identifierSafe (text : List Char) :
    startsWithDigit (identifierSafe text) = true ↔ DigitSurfaces text := by
  constructor
  · intro h
    rcases digits_or_exists text with hdigits | ⟨digits, c, rest, rfl, hdigits, hc⟩
    · rw [← List.append_nil text, identifierSafe_append_of_digits hdigits] at h
      cases h
    · rw [identifierSafe_append_of_digits hdigits, identifierSafe_eq,
        List.dropWhile_cons_of_neg (Bool.eq_false_iff.1 hc)] at h
      obtain ⟨dropped, d, rest', hrest, hdropped, hd⟩ := (startsWithDigit_filterMap _).1 h
      refine ⟨digits, dropped, d, rest', by rw [hrest], hdigits, ?_, hdropped, hd⟩
      rintro rfl
      cases hrest
      rw [hd] at hc
      cases hc
  · rintro ⟨digits, dropped, d, rest, rfl, hdigits, hne, hdropped, hd⟩
    obtain ⟨c, dropped, rfl⟩ := List.exists_cons_of_ne_nil hne
    have hc : ¬c.isDigit = true := by
      intro hc
      have hnone := hdropped c (List.mem_cons_self ..)
      rw [lasting?_of_isDigit hc] at hnone
      cases hnone
    rw [identifierSafe_append_of_digits hdigits, identifierSafe_eq, List.cons_append,
      List.dropWhile_cons_of_neg hc, startsWithDigit_filterMap]
    exact ⟨c :: dropped, d, rest, rfl, hdropped, hd⟩

theorem digits_filterMap_iff (text : List Char) :
    (∀ c ∈ text.filterMap lasting?, c.isDigit = true) ↔ Fades text := by
  constructor
  · intro h c hc
    cases hl : lasting? c with
    | none => exact .inr rfl
    | some d =>
      apply Or.inl
      rw [← isDigit_of_lasting? hl]
      exact h d (List.mem_filterMap.2 ⟨c, hc, hl⟩)
  · intro h d hd
    obtain ⟨c, hc, hl⟩ := List.mem_filterMap.1 hd
    rw [isDigit_of_lasting? hl]
    rcases h c hc with hdigit | hnone
    · exact hdigit
    · rw [hl] at hnone
      cases hnone

theorem digits_identifierSafe_iff (text : List Char) :
    (∀ c ∈ identifierSafe text, c.isDigit = true) ↔ Fades text := by
  rw [identifierSafe_eq, digits_filterMap_iff]
  constructor
  · intro h c hc
    rw [← List.takeWhile_append_dropWhile (p := Char.isDigit) (l := text)] at hc
    rcases List.mem_append.1 hc with hc | hc
    · exact .inl (List.mem_takeWhile_imp hc)
    · exact h c hc
  · intro h c hc
    exact h c (List.dropWhile_sublist _ |>.subset hc)

theorem identifierSafe_append_of_not_digits (hsafe : ∀ c ∈ kept, c.isAlphanum = true ∨ c = '_')
    (h : ¬∀ c ∈ kept, c.isDigit = true) (text : List Char) :
    startsWithDigit (identifierSafe (kept ++ text)) = false ∧
      ¬∀ c ∈ identifierSafe (kept ++ text), c.isDigit = true := by
  obtain ⟨digits, c, behind, rfl, hdigits, hc⟩ := (digits_or_exists kept).resolve_left h
  have hlasting : lasting? c = some c := by
    apply lasting?_of_isSafe
    apply hsafe
    exact List.mem_append_right _ (List.mem_cons_self ..)
  rw [List.append_assoc, identifierSafe_append_of_digits hdigits, identifierSafe_eq,
    List.cons_append, List.dropWhile_cons_of_neg (Bool.eq_false_iff.1 hc),
    List.filterMap_cons_some hlasting]
  constructor
  · exact hc
  · intro hall
    rw [hall c (List.mem_cons_self ..)] at hc
    cases hc

end Texts

section Tiers

variable {tier : Nat → List Char} {n : Nat}

theorem isSafe_of_mem_accumulate {k : Nat} {c : Char} (h : c ∈ accumulate tier k) :
    c.isAlphanum = true ∨ c = '_' := by
  cases k with
  | zero => cases h
  | succ k => exact isSafe_of_mem_identifierSafe h

theorem digits_accumulate_iff (k : Nat) :
    (∀ c ∈ accumulate tier k, c.isDigit = true) ↔ ∀ j < k, Fades (tier j) := by
  induction k with
  | zero => exact iff_of_true nofun nofun
  | succ k ih =>
    rw [Nat.forall_lt_succ_right, ← ih, accumulate]
    by_cases h : ∀ c ∈ accumulate tier k, c.isDigit = true
    · rw [identifierSafe_append_of_digits h, digits_identifierSafe_iff, and_iff_right h]
    · have hkeeps := identifierSafe_append_of_not_digits (fun c => isSafe_of_mem_accumulate) h (tier k)
      exact iff_of_false hkeeps.2 fun hall => h hall.1

theorem startsWithDigit_accumulate (k : Nat) :
    startsWithDigit (accumulate tier (k + 1)) = true ↔
      (∀ j < k, Fades (tier j)) ∧ DigitSurfaces (tier k) := by
  rw [← digits_accumulate_iff, accumulate]
  by_cases h : ∀ c ∈ accumulate tier k, c.isDigit = true
  · rw [identifierSafe_append_of_digits h, startsWithDigit_identifierSafe, and_iff_right h]
  · have hkeeps := identifierSafe_append_of_not_digits (fun c => isSafe_of_mem_accumulate) h (tier k)
    rw [hkeeps.1]
    exact iff_of_false Bool.false_ne_true fun hall => h hall.1

theorem extendTiers_eq_some {fuel k : Nat} {r : List Char}
    (h : extendTiers tier n fuel k (accumulate tier k) = some r) :
    ∃ last, k ≤ last ∧ last < k + fuel ∧
      (∀ j, k ≤ j → j < last → (accumulate tier (j + 1)).length < n) ∧
      n ≤ (accumulate tier (last + 1)).length ∧ r = (accumulate tier (last + 1)).take n := by
  induction fuel generalizing k with
  | zero => cases h
  | succ fuel ih =>
    rw [extendTiers] at h
    split at h
    · next hlong =>
      cases h
      exact ⟨k, Nat.le_refl k, by omega, fun j hj hk => by omega, hlong, rfl⟩
    · next hshort =>
      obtain ⟨last, hk, hfuel, hbefore, hlong, hr⟩ := ih h
      refine ⟨last, by omega, by omega, ?_, hlong, hr⟩
      intro j hj hlast
      rcases Nat.eq_or_lt_of_le hj with rfl | hj
      · exact Nat.lt_of_not_le hshort
      · exact hbefore j hj hlast

end Tiers

section Encodings

variable {c : Char}

theorem isAlphanum_of_mem_digits {a : Alphabet} (h : c ∈ a.digits) : c.isAlphanum = true := by
  have hall : a.digits.all Char.isAlphanum = true := by cases a <;> decide +kernel
  exact List.all_eq_true.1 hall c h

theorem isAlphanum_of_mem_positional {a : Alphabet} {bytes : Bytes}
    (h : c ∈ positional a bytes) : c.isAlphanum = true := by
  obtain ⟨d, -, rfl⟩ := List.mem_map.1 h
  rw [List.getD_eq_getElem?_getD]
  cases hd : a.digits[d]? with
  | none => rfl
  | some c => exact isAlphanum_of_mem_digits (List.mem_of_getElem? hd)

theorem isAlphanum_digitChar {n : Nat} (h : n < 16) : (Nat.digitChar n).isAlphanum = true := by
  revert n
  decide

theorem isAlphanum_of_mem_hexPair {b : UInt8} (h : c ∈ hexPair b) : c.isAlphanum = true := by
  have hb : b.toNat < 256 := b.toNat_lt
  rcases List.mem_cons.1 h with rfl | h
  · apply isAlphanum_digitChar
    omega
  · rw [List.mem_singleton.1 h]
    apply isAlphanum_digitChar
    omega

def Encoding.isPlain : Encoding → Bool
  | .hex => true
  | .base64 => false
  | .base64Url => false
  | .positional _ => true

theorem isAlphanum_of_mem_encode {encoding : Encoding} (hplain : encoding.isPlain = true)
    {bytes : Bytes} (h : c ∈ encoding.encode bytes) : c.isAlphanum = true := by
  cases encoding with
  | hex =>
    obtain ⟨b, -, hc⟩ := List.mem_flatMap.1 h
    exact isAlphanum_of_mem_hexPair hc
  | base64 => cases hplain
  | base64Url => cases hplain
  | positional a => exact isAlphanum_of_mem_positional h

theorem not_digitSurfaces {text : List Char} (h : ∀ c ∈ text, c.isAlphanum = true) :
    ¬DigitSurfaces text := by
  rintro ⟨digits, dropped, d, rest, rfl, -, hne, hdropped, -⟩
  obtain ⟨c, dropped, rfl⟩ := List.exists_cons_of_ne_nil hne
  have hlasting := lasting?_of_isAlphanum (h c (by simp))
  rw [hdropped c (List.mem_cons_self ..)] at hlasting
  cases hlasting

end Encodings

section Digests

variable {digest : Bytes → Bytes} {encoding : Encoding} {length : Option Nat}
  {salt content : Bytes} {r : List Char}

/-- The digest is what its tiers make up to the first with which it is long enough; without a length
that is the first of all. -/
theorem exists_last_tier (h : tieredDigest? digest encoding length salt content = some r) :
    let tier := tierText digest encoding salt content
    ∃ last, r = truncate length (accumulate tier (last + 1)) ∧ (length = none → last = 0) ∧
      ∀ n, length = some n → n ≤ (accumulate tier (last + 1)).length ∧
        ∀ j < last, (accumulate tier (j + 1)).length < n := by
  intro tier
  cases length with
  | none =>
    cases h
    exact ⟨0, rfl, fun _ => rfl, nofun⟩
  | some n =>
    obtain ⟨last, -, -, hbefore, hlong, rfl⟩ := extendTiers_eq_some (k := 0) h
    refine ⟨last, rfl, nofun, ?_⟩
    intro n' hn
    cases hn
    exact ⟨hlong, fun j => hbefore j (Nat.zero_le j)⟩

theorem mem_of_mem_truncate {text : List Char} {c : Char} (h : c ∈ truncate length text) :
    c ∈ text := by
  cases length with
  | none => exact h
  | some n => exact List.mem_of_mem_take h

theorem startsWithDigit_truncate (length : Option Nat) (text : List Char) :
    startsWithDigit (truncate length text) = true ↔
      length ≠ some 0 ∧ startsWithDigit text = true := by
  cases length with
  | none => simp [truncate]
  | some n =>
    cases n with
    | zero => simp [truncate, startsWithDigit]
    | succ n => simp [truncate, startsWithDigit, List.head?_take]

/-- A tiered digest starts with a digit exactly if it is not cut to nothing, all tiers before the
last that is needed fade, and a digit comes to the front of the last; never if the encoding writes
letters and digits only. -/
theorem tiered_startsWithDigit_iff
    (h : tieredDigest? digest encoding length salt content = some r) :
    let tier := tierText digest encoding salt content
    ∃ last, r = truncate length (accumulate tier (last + 1)) ∧
      (length = none → last = 0) ∧
      (∀ n, length = some n → n ≤ (accumulate tier (last + 1)).length ∧
        ∀ j < last, (accumulate tier (j + 1)).length < n) ∧
      (∀ c ∈ r, c.isAlphanum = true ∨ c = '_') ∧
      (startsWithDigit r = true ↔
        length ≠ some 0 ∧ (∀ j < last, Fades (tier j)) ∧ DigitSurfaces (tier last)) ∧
      (encoding.isPlain = true → startsWithDigit r = false) := by
  intro tier
  obtain ⟨last, rfl, hnone, hsome⟩ := exists_last_tier h
  have hstart := startsWithDigit_truncate length (accumulate tier (last + 1))
  rw [startsWithDigit_accumulate] at hstart
  refine ⟨last, rfl, hnone, hsome, ?_, hstart, ?_⟩
  · intro c hc
    exact isSafe_of_mem_accumulate (mem_of_mem_truncate hc)
  · intro hplain
    rw [Bool.eq_false_iff]
    intro hdigit
    apply not_digitSurfaces _ (hstart.1 hdigit).2.2
    intro c
    exact isAlphanum_of_mem_encode hplain

end Digests

theorem tiered_startsWithDigit_iff_md4 :
    let digest : Bytes → Bytes := Algorithm.md4.digest
    let content : Bytes := [99, 49, 50]
    (∃ r, tieredDigest? digest .hex (some 20) [] content = some r ∧ startsWithDigit r = false) ∧
      ∃ r, tieredDigest? digest .base64 (some 20) [] content = some r ∧
        (∀ c ∈ r, c.isAlphanum = true ∨ c = '_') ∧
        ∃ last, DigitSurfaces (tierText digest .base64 [] content last) := by
  intro digest content
  constructor
  · have h : tieredDigest? digest .hex (some 20) [] content =
        some "fbc1fe62e6442d37eb1d".toList := by decide +kernel
    obtain ⟨last, -, -, -, -, -, hplain⟩ := tiered_startsWithDigit_iff h
    exact ⟨_, h, hplain rfl⟩
  · have h : tieredDigest? digest .base64 (some 20) [] content =
        some "8HYuZELTfrHY4ayUm7jA".toList := by decide +kernel
    obtain ⟨last, -, -, -, hsafe, hstart, -⟩ := tiered_startsWithDigit_iff h
    exact ⟨_, h, hsafe, last, (hstart.1 (by decide)).2.2⟩

/-- The digest of `c12` starts with `+8`, and the `+` is dropped after the digits at the front. -/
theorem tiered_startsWithDigit_plus :
    (tierText Algorithm.md4.digest .base64 [] [99, 49, 50] 0).take 3 = "+8H".toList ∧
      tieredDigest? Algorithm.md4.digest .base64 (some 5) [] [99, 49, 50] =
        some "8HYuZ".toList ∧
      startsWithDigit "8HYuZ".toList = true := by
  decide +kernel

end CssModules.Digest
