import CssModules.Proofs.Digest.Tiers
import Mathlib.Data.List.DropRight

namespace CssModules.Digest

variable {tier : Nat → List Char} {n m j k fuel : Nat} {r : List Char}

/-- The first tiers one behind the other, without the digits at the front. -/
def onePass (tier : Nat → List Char) (k : Nat) : List Char :=
  ((List.range k).flatMap tier).dropWhile Char.isDigit

theorem exists_extendTiers (hlong : n ≤ (accumulate tier (k + 1)).length) (hj : j ≤ k)
    (hk : k < j + fuel) : ∃ r, extendTiers tier n fuel j (accumulate tier j) = some r := by
  induction fuel generalizing j with
  | zero => omega
  | succ fuel ih =>
    rw [extendTiers]
    by_cases hnow : n ≤ (accumulate tier (j + 1)).length
    · exact ⟨_, if_pos hnow⟩
    · have hne : j ≠ k := by
        rintro rfl
        exact hnow hlong
      obtain ⟨r, hr⟩ := ih (j := j + 1) (by omega) (by omega)
      exact ⟨r, (if_neg hnow).trans hr⟩

section Plain

theorem identifierSafe_of_plain {text : List Char} (h : ∀ c ∈ text, c.isAlphanum = true) :
    identifierSafe text = text.dropWhile Char.isDigit := by
  rw [identifierSafe_eq]
  have hlasting : ∀ c ∈ text.dropWhile Char.isDigit, lasting? c = some c := by
    intro c hc
    exact lasting?_of_isAlphanum (h c ((List.dropWhile_sublist _).subset hc))
  rw [List.filterMap_congr hlasting, List.filterMap_some]

theorem dropWhile_dropWhile_append (front text : List Char) :
    (front.dropWhile Char.isDigit ++ text).dropWhile Char.isDigit =
      (front ++ text).dropWhile Char.isDigit := by
  rw [List.dropWhile_append, List.dropWhile_append, List.dropWhile_idempotent]

theorem onePass_succ (tier : Nat → List Char) (k : Nat) :
    onePass tier (k + 1) = (onePass tier k ++ tier k).dropWhile Char.isDigit := by
  rw [onePass, List.range_succ, List.flatMap_append, List.flatMap_singleton, onePass,
    dropWhile_dropWhile_append]

theorem onePass_succ_of_ne_nil (h : onePass tier k ≠ []) :
    onePass tier (k + 1) = onePass tier k ++ tier k := by
  rw [onePass_succ, onePass, List.dropWhile_append, List.dropWhile_idempotent, if_neg]
  exact fun hempty => h (List.isEmpty_iff.1 hempty)

theorem onePass_prefix (h : j ≤ k) : onePass tier j <+: onePass tier k := by
  induction k, h using Nat.le_induction with
  | base => exact List.prefix_rfl
  | succ k _ ih =>
    by_cases hnil : onePass tier k = []
    · rw [hnil, List.prefix_nil] at ih
      rw [ih]
      exact List.nil_prefix
    · rw [onePass_succ_of_ne_nil hnil]
      exact ih.trans (List.prefix_append ..)

theorem take_onePass (hj : n ≤ (onePass tier j).length) (hk : n ≤ (onePass tier k).length) :
    (onePass tier j).take n = (onePass tier k).take n := by
  have hle {j k : Nat} (hjk : j ≤ k) (hj : n ≤ (onePass tier j).length) :
      (onePass tier j).take n = (onePass tier k).take n := by
    have hprefix : onePass tier j <+: onePass tier k := onePass_prefix hjk
    obtain ⟨rest, hrest⟩ := hprefix
    rw [← hrest, List.take_append_of_le_length hj]
  rcases Nat.le_total j k with hjk | hkj
  · exact hle hjk hj
  · exact (hle hkj hk).symm

theorem le_length_onePass (hne : ∀ t < j + n, tier t ≠ [])
    (hj : ∃ c ∈ tier j, c.isDigit = false) (hn : 1 ≤ n) : n ≤ (onePass tier (j + n)).length := by
  induction n, hn using Nat.le_induction with
  | base =>
    rw [Nat.one_le_iff_ne_zero, Ne, List.length_eq_zero_iff, onePass_succ,
      List.dropWhile_eq_nil_iff]
    obtain ⟨c, hc, hdigit⟩ := hj
    intro hall
    rw [hall c (List.mem_append_right _ hc)] at hdigit
    cases hdigit
  | succ n hn ih =>
    have hlong := ih fun t ht => hne t (by omega)
    have hnil : onePass tier (j + n) ≠ [] := List.ne_nil_of_length_pos (by omega)
    have htier := List.length_pos_iff.2 (hne (j + n) (by omega))
    rw [← Nat.add_assoc, onePass_succ_of_ne_nil hnil, List.length_append]
    omega

/-- Cleaning the text anew with each tier changes nothing of what has been cleaned before. -/
theorem accumulate_eq_onePass (hplain : ∀ t, ∀ c ∈ tier t, c.isAlphanum = true) (k : Nat) :
    accumulate tier k = onePass tier k := by
  induction k with
  | zero => rfl
  | succ k ih =>
    have hsafe : ∀ c ∈ onePass tier k ++ tier k, c.isAlphanum = true := by
      intro c hc
      rcases List.mem_append.1 hc with hc | hc
      · obtain ⟨t, -, hct⟩ := List.mem_flatMap.1 ((List.dropWhile_sublist _).subset hc)
        exact hplain t c hct
      · exact hplain k c hc
    rw [accumulate, ih, identifierSafe_of_plain hsafe, onePass_succ]

theorem extendTiers_eq_some_iff (hplain : ∀ t, ∀ c ∈ tier t, c.isAlphanum = true) :
    extendTiers tier n fuel 0 [] = some r ↔
      ∃ k < fuel, n ≤ (onePass tier (k + 1)).length ∧ r = (onePass tier (k + 1)).take n := by
  constructor
  · intro h
    obtain ⟨last, -, hlt, -, hlong, hr⟩ := extendTiers_eq_some (k := 0) h
    rw [accumulate_eq_onePass hplain] at hlong hr
    exact ⟨last, by omega, hlong, hr⟩
  · rintro ⟨k, hk, hlong, rfl⟩
    have hlong' : n ≤ (accumulate tier (k + 1)).length := by rwa [accumulate_eq_onePass hplain]
    obtain ⟨r, hr⟩ : ∃ r, extendTiers tier n fuel 0 (accumulate tier 0) = some r :=
      exists_extendTiers hlong' (Nat.zero_le k) (by omega)
    obtain ⟨last, -, -, -, hlast, rfl⟩ := extendTiers_eq_some (k := 0) hr
    have hfront : (onePass tier (k + 1)).take n = (accumulate tier (last + 1)).take n := by
      rw [accumulate_eq_onePass hplain] at hlast ⊢
      exact take_onePass hlong hlast
    rw [hfront]
    exact hr

end Plain

/-- A tiered digest has its length and is safe in an identifier. If the encoding writes letters and
digits only, it is the front of any tiers that are long enough in one pass, and is there exactly if
some are. -/
theorem tiered_eq_onePass (digest : Bytes → Bytes) (encoding : Encoding) (salt content : Bytes) :
    let tier := fun t => encoding.encode (digest (salt ++ toLittleEndian 4 t ++ content))
    let tiered := fun n => tieredDigest? digest encoding (some n) salt content
    (∀ n r, tiered n = some r → r.length = n ∧ ∀ c ∈ r, c.isAlphanum = true ∨ c = '_') ∧
    (encoding.isPlain = true →
      (∀ n r, tiered n = some r → ∀ k, n ≤ (onePass tier (k + 1)).length →
        r = (onePass tier (k + 1)).take n) ∧
      (∀ n r, tiered n = some r ↔ ∃ k < tierCount, n ≤ (onePass tier (k + 1)).length ∧
        r = (onePass tier (k + 1)).take n) ∧
      (∀ m n r, m ≤ n → tiered n = some r → tiered m = some (r.take m)) ∧
      ∀ j n, 1 ≤ n → j + n ≤ tierCount → (∀ t < tierCount, tier t ≠ []) →
        (∃ c ∈ tier j, c.isDigit = false) →
        ∃ r, extendTiers tier n (j + n) 0 [] = some r ∧ tiered n = some r) := by
  intro tier tiered
  constructor
  · intro n r h
    obtain ⟨last, -, -, -, hlong, rfl⟩ := extendTiers_eq_some (k := 0) h
    exact ⟨List.length_take_of_le hlong, fun c hc =>
      isSafe_of_mem_accumulate (List.mem_of_mem_take hc)⟩
  · intro hplain
    have hreturns {n fuel : Nat} {r : List Char} : extendTiers tier n fuel 0 [] = some r ↔
        ∃ k < fuel, n ≤ (onePass tier (k + 1)).length ∧ r = (onePass tier (k + 1)).take n :=
      extendTiers_eq_some_iff fun t c => isAlphanum_of_mem_encode hplain
    refine ⟨?_, fun n r => hreturns, ?_, ?_⟩
    · intro n r h k hk
      obtain ⟨last, -, hlong, rfl⟩ := hreturns.1 h
      exact take_onePass hlong hk
    · intro m n r hmn h
      obtain ⟨last, hlast, hlong, rfl⟩ := hreturns.1 h
      refine hreturns.2 ⟨last, hlast, Nat.le_trans hmn hlong, ?_⟩
      rw [List.take_take, Nat.min_eq_left hmn]
    · intro j n hn hcount hne hj
      have hlong : n ≤ (onePass tier (j + n - 1 + 1)).length := by
        rw [Nat.sub_add_cancel (by omega)]
        exact le_length_onePass (fun t ht => hne t (by omega)) hj hn
      exact ⟨_, hreturns.2 ⟨j + n - 1, by omega, hlong, rfl⟩,
        hreturns.2 ⟨j + n - 1, by omega, hlong, rfl⟩⟩

end CssModules.Digest
