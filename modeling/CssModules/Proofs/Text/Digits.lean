import Mathlib.Data.Nat.Notation

namespace CssModules.Text

variable {c : Char} {digits : List Char}

def unpadded (digits : List Char) : List Char :=
  match digits.dropWhile (· == '0') with
  | [] => ['0']
  | c :: digits => c :: digits

theorem unpadded_zero_cons (digits : List Char) : unpadded ('0' :: digits) = unpadded digits := rfl

theorem unpadded_cons_of_ne (h : c ≠ '0') (digits : List Char) :
    unpadded (c :: digits) = c :: digits := by
  rw [unpadded, List.dropWhile_cons_of_neg (by simpa using h)]

theorem mem_of_mem_unpadded (h : c ∈ unpadded digits) : c = '0' ∨ c ∈ digits := by
  induction digits with
  | nil => exact .inl (List.mem_singleton.1 h)
  | cons d digits ih =>
    by_cases hd : d = '0'
    · rw [hd, unpadded_zero_cons] at h
      exact (ih h).imp_right (List.mem_cons_of_mem d)
    · rw [unpadded_cons_of_ne hd] at h
      exact .inr h

theorem length_unpadded_le (h : digits ≠ []) : (unpadded digits).length ≤ digits.length := by
  induction digits with
  | nil => exact absurd rfl h
  | cons d digits ih =>
    by_cases hd : d = '0'
    · rw [hd, unpadded_zero_cons]
      cases digits with
      | nil => exact Nat.le_refl 1
      | cons e digits => exact Nat.le_succ_of_le (ih (List.cons_ne_nil e digits))
    · exact Nat.le_of_eq (congrArg List.length (unpadded_cons_of_ne hd digits))

theorem unpadded_eq_self_iff (h : digits ≠ []) :
    unpadded digits = digits ↔ digits.head? = some '0' → digits = ['0'] := by
  cases digits with
  | nil => exact absurd rfl h
  | cons d digits =>
    by_cases hd : d = '0'
    · rw [hd, unpadded_zero_cons]
      cases digits with
      | nil => exact iff_of_true rfl fun _ => rfl
      | cons e digits =>
        have hle := length_unpadded_le (List.cons_ne_nil e digits)
        refine iff_of_false (fun he => ?_) fun he => by simpa using he rfl
        rw [he] at hle
        exact absurd hle (Nat.not_succ_le_self _)
    · rw [unpadded_cons_of_ne hd]
      exact iff_of_true rfl fun he => absurd (Option.some.inj he) hd

theorem toNat_sub_lt (h : c.isDigit = true) : c.toNat - '0'.toNat < 10 := by
  have hhigh : c.toNat ≤ 57 := (Char.isDigit_iff_toNat.1 h).2
  have hzero : '0'.toNat = 48 := rfl
  omega

theorem digitChar_toNat (h : c.isDigit = true) : (c.toNat - '0'.toNat).digitChar = c := by
  have hlow := (Char.isDigit_iff_toNat.1 h).1
  have hzero : '0'.toNat = 48 := rfl
  apply Char.toNat_inj.1
  rw [Nat.toNat_digitChar_of_lt_ten (toNat_sub_lt h)]
  omega

theorem toDigits_append (hdigits : ∀ d ∈ digits, d.isDigit = true) {n : Nat} (hn : 0 < n) :
    Nat.toDigits 10 n ++ digits = Nat.toDigits 10 (Nat.ofDigitChars 10 digits n) := by
  induction digits generalizing n with
  | nil => exact List.append_nil _
  | cons d digits ih =>
    obtain ⟨hd, hdigits⟩ := List.forall_mem_cons.1 hdigits
    have hlt := toNat_sub_lt hd
    have hnext : Nat.toDigits 10 n ++ [d] = Nat.toDigits 10 (10 * n + (d.toNat - '0'.toNat)) := by
      rw [← Nat.toDigits_append_toDigits (by omega) hn hlt, Nat.toDigits_of_lt_base hlt,
        digitChar_toNat hd]
    rw [Nat.ofDigitChars_cons, ← ih hdigits (by omega), ← hnext, List.append_assoc,
      List.singleton_append]

theorem toDigits_ofDigitChars (hdigits : ∀ d ∈ digits, d.isDigit = true) :
    Nat.toDigits 10 (Nat.ofDigitChars 10 digits 0) = unpadded digits := by
  induction digits with
  | nil => rfl
  | cons d digits ih =>
    obtain ⟨hd, hdigits⟩ := List.forall_mem_cons.1 hdigits
    rw [Nat.ofDigitChars_cons, Nat.mul_zero, Nat.zero_add]
    by_cases hzero : d = '0'
    · rw [hzero, unpadded_zero_cons]
      exact ih hdigits
    · have hlow := (Char.isDigit_iff_toNat.1 hd).1
      have hne : d.toNat ≠ '0'.toNat := fun he => hzero (Char.toNat_inj.1 he)
      have hlt := toNat_sub_lt hd
      rw [unpadded_cons_of_ne hzero, ← toDigits_append hdigits (by omega),
        Nat.toDigits_of_lt_base hlt, digitChar_toNat hd, List.singleton_append]

theorem isDigit_of_mem_toDigits {n : Nat} (h : c ∈ Nat.toDigits 10 n) : c.isDigit = true :=
  Nat.isDigit_of_mem_toDigits (by omega) (by omega) h

theorem toDigits_eq_zero {n : Nat} (h : (Nat.toDigits 10 n).head? = some '0') :
    Nat.toDigits 10 n = ['0'] := by
  have hself := toDigits_ofDigitChars fun d hd => isDigit_of_mem_toDigits (n := n) hd
  rw [Nat.ofDigitChars_ten_toDigits] at hself
  exact (unpadded_eq_self_iff Nat.toDigits_ne_nil).1 hself.symm h

end CssModules.Text
