import CssModules.Digest.Encoding
import Mathlib.Data.List.DropRight
import Mathlib.Data.List.GetD
import Mathlib.Data.Nat.Digits.Lemmas

namespace CssModules.Digest

variable {a : Alphabet} {base carry : Nat} {number bytes other : Bytes}

def quotientDigits (base : Nat) : (carry : Nat) → Bytes → List Nat
  | _, [] => []
  | carry, b :: number =>
    (carry * 256 + b.toNat) / base :: quotientDigits base ((carry * 256 + b.toNat) % base) number

/-- What a round of the division leaves of a number. -/
def remaining (base : Nat) (number : Bytes) : Bytes :=
  (longDivide base 0 number).1.dropWhile (· == 0)

/-- The number that a text writes in an alphabet, most significant digit first. -/
def Alphabet.valueOf (a : Alphabet) (text : List Char) : Nat :=
  text.foldl (fun n c => n * a.base + a.digits.idxOf c) 0

theorem Alphabet.base_pos (a : Alphabet) : 0 < a.base := Nat.lt_of_succ_lt a.one_lt_base

theorem Alphabet.nodup_digits (a : Alphabet) : a.digits.Nodup := by
  -- Numbers are compared faster than characters.
  have hcodes : (a.digits.map Char.toNat).Nodup := by cases a <;> decide +kernel
  exact hcodes.of_map

section Division

theorem quotientDigit_lt (hcarry : carry < base) (b : UInt8) :
    (carry * 256 + b.toNat) / base < 256 := by
  have hb := b.toNat_lt
  rw [Nat.div_lt_iff_lt_mul (Nat.zero_lt_of_lt hcarry)]
  calc carry * 256 + b.toNat < (carry + 1) * 256 := by omega
    _ ≤ base * 256 := Nat.mul_le_mul_right 256 hcarry
    _ = 256 * base := Nat.mul_comm ..

theorem map_toNat_longDivide (hcarry : carry < base) (number : Bytes) :
    (longDivide base carry number).1.map UInt8.toNat = quotientDigits base carry number := by
  induction number generalizing carry with
  | nil => rfl
  | cons b number ih =>
    have hbyte : (UInt8.ofNat ((carry * 256 + b.toNat) / base)).toNat =
        (carry * 256 + b.toNat) / base :=
      UInt8.toNat_ofNat_of_lt' (quotientDigit_lt hcarry b)
    have hrest := ih (Nat.mod_lt (carry * 256 + b.toNat) (Nat.zero_lt_of_lt hcarry))
    rw [longDivide, quotientDigits, List.map_cons, hbyte, hrest]

theorem map_toNat_remaining (hbase : 0 < base) (number : Bytes) :
    (remaining base number).map UInt8.toNat =
      (quotientDigits base 0 number).dropWhile (· == 0) := by
  have hzero : ((· == 0) ∘ UInt8.toNat : UInt8 → Bool) = (· == 0) := by
    funext b
    rw [Bool.eq_iff_iff]
    simp [← UInt8.toNat_inj]
  rw [← map_toNat_longDivide hbase, List.dropWhile_map, hzero, remaining]

theorem byteValue_longDivide_fst (hbase : 0 < base) (number : Bytes) :
    byteValue 0 (longDivide base 0 number).1 = byteValue 0 number / base := by
  have hdivide := byteValue_longDivide hbase number 0 hbase 0
  rw [Nat.zero_mul, Nat.add_zero, Nat.mul_comm] at hdivide
  rw [hdivide, Nat.mul_add_div hbase, Nat.div_eq_of_lt (longDivide_lt hbase number hbase),
    Nat.add_zero]

theorem longDivide_snd (hbase : 0 < base) (number : Bytes) :
    (longDivide base 0 number).2 = byteValue 0 number % base := by
  have hdivide := byteValue_longDivide hbase number 0 hbase 0
  rw [Nat.zero_mul, Nat.add_zero, Nat.mul_comm] at hdivide
  rw [hdivide, Nat.mul_add_mod, Nat.mod_eq_of_lt (longDivide_lt hbase number hbase)]

theorem byteValue_remaining (hbase : 0 < base) (number : Bytes) :
    byteValue 0 (remaining base number) = byteValue 0 number / base := by
  rw [remaining, byteValue_dropWhile, byteValue_longDivide_fst hbase]

theorem byteValue_iterate_remaining (hbase : 0 < base) (number : Bytes) (k : Nat) :
    byteValue 0 ((remaining base)^[k] number) = byteValue 0 number / base ^ k := by
  induction k with
  | zero => rw [pow_zero, Nat.div_one]; rfl
  | succ k ih =>
    rw [Function.iterate_succ_apply', byteValue_remaining hbase, ih, Nat.div_div_eq_div_mul,
      Nat.pow_succ]

theorem dropWhile_eq_nil_iff_byteValue (number : Bytes) :
    number.dropWhile (· == 0) = [] ↔ byteValue 0 number = 0 := by
  rw [← byteValue_dropWhile number]
  cases h : number.dropWhile (· == 0) with
  | nil => exact iff_of_true rfl rfl
  | cons b rest =>
    have hb : b ≠ 0 := by
      have hhead := List.head?_dropWhile_not (· == 0) number
      simpa [h] using hhead
    exact iff_of_false nofun (Nat.ne_of_gt (byteValue_pos hb))

/-- Dividing until nothing is left gives the digits of the number. -/
theorem positionalDigits_eq (a : Alphabet) (number : Bytes) :
    positionalDigits a number = (Nat.digits a.base (byteValue 0 number)).reverse := by
  fun_induction positionalDigits a number with
  | case1 number h =>
    rw [(dropWhile_eq_nil_iff_byteValue number).1 h, Nat.digits_zero]
    rfl
  | case2 number b rest h ih =>
    have hvalue : byteValue 0 (b :: rest) = byteValue 0 number := by
      rw [← h, byteValue_dropWhile]
    have hne : byteValue 0 number ≠ 0 := by
      rw [Ne, ← dropWhile_eq_nil_iff_byteValue, h]
      exact List.cons_ne_nil b rest
    rw [ih, byteValue_longDivide_fst a.base_pos, longDivide_snd a.base_pos, hvalue,
      Nat.digits_def' a.one_lt_base (Nat.pos_of_ne_zero hne), List.reverse_cons]

end Division

section Numbers

theorem byteValue_reverse (bytes : Bytes) : byteValue 0 bytes.reverse = littleEndian bytes := by
  rw [byteValue, littleEndian, List.foldl_reverse]
  congr 1
  funext b n
  omega

theorem littleEndian_eq_ofDigits (bytes : Bytes) :
    littleEndian bytes = Nat.ofDigits 256 (bytes.map UInt8.toNat) := by
  induction bytes with
  | nil => rfl
  | cons b bytes ih =>
    rw [List.map_cons, Nat.ofDigits_cons, ← ih]
    rfl

theorem littleEndian_append_zeros (bytes : Bytes) (k : Nat) :
    littleEndian (bytes ++ List.replicate k 0) = littleEndian bytes := by
  rw [littleEndian_eq_ofDigits, littleEndian_eq_ofDigits, List.map_append, List.map_replicate,
    UInt8.toNat_zero, Nat.ofDigits_append_replicate_zero]

theorem eq_of_littleEndian_eq (hlength : bytes.length = other.length)
    (h : littleEndian bytes = littleEndian other) : bytes = other := by
  have hlt (bytes : Bytes) : ∀ n ∈ bytes.map UInt8.toNat, n < 256 := by
    intro n hn
    obtain ⟨b, -, rfl⟩ := List.mem_map.1 hn
    exact b.toNat_lt
  rw [littleEndian_eq_ofDigits, littleEndian_eq_ofDigits] at h
  apply List.map_injective_iff.2 fun _ _ => UInt8.toNat_inj.1
  exact Nat.ofDigits_inj_of_len_eq (by decide) (by simpa using hlength) (hlt bytes) (hlt other) h

theorem littleEndian_eq_iff : littleEndian bytes = littleEndian other ↔
    ∃ m n, bytes ++ List.replicate m 0 = other ++ List.replicate n 0 := by
  constructor
  · intro h
    refine ⟨other.length, bytes.length, eq_of_littleEndian_eq ?_ ?_⟩
    · simp [Nat.add_comm]
    · rw [littleEndian_append_zeros, littleEndian_append_zeros, h]
  · rintro ⟨m, n, h⟩
    rw [← littleEndian_append_zeros bytes m, h, littleEndian_append_zeros]

theorem littleEndian_eq_zero_iff : littleEndian bytes = 0 ↔ ∀ b ∈ bytes, b = 0 := by
  induction bytes with
  | nil => exact iff_of_true rfl nofun
  | cons b bytes ih =>
    have hcons : littleEndian (b :: bytes) = b.toNat + 256 * littleEndian bytes := rfl
    rw [hcons, List.forall_mem_cons, ← ih, ← UInt8.toNat_inj, UInt8.toNat_zero]
    omega

end Numbers

section Texts

variable {digits : List Nat}

theorem idxOf_digit {d : Nat} (h : d < a.base) : a.digits.idxOf (a.digits.getD d '0') = d := by
  rw [← a.length_digits] at h
  rw [List.getD_eq_getElem _ _ h, a.nodup_digits.idxOf_getElem]

theorem digit_mem {d : Nat} (h : d < a.base) : a.digits.getD d '0' ∈ a.digits := by
  rw [← a.length_digits] at h
  rw [List.getD_eq_getElem _ _ h]
  exact List.getElem_mem h

theorem valueOf_map (h : ∀ d ∈ digits, d < a.base) :
    a.valueOf (digits.reverse.map fun d => a.digits.getD d '0') = Nat.ofDigits a.base digits := by
  induction digits with
  | nil => rfl
  | cons d digits ih =>
    obtain ⟨hd, hdigits⟩ := List.forall_mem_cons.1 h
    rw [Alphabet.valueOf] at ih ⊢
    rw [List.reverse_cons, List.map_append, List.foldl_append, ih hdigits, Nat.ofDigits_cons]
    simp only [List.map_cons, List.map_nil, List.foldl_cons, List.foldl_nil, idxOf_digit hd]
    rw [Nat.add_comm, Nat.mul_comm]

theorem positional_eq (a : Alphabet) (bytes : Bytes) : positional a bytes =
    (Nat.digits a.base (littleEndian bytes)).reverse.map fun d => a.digits.getD d '0' := by
  rw [positional, positionalDigits_eq, byteValue_reverse]

theorem valueOf_positional (a : Alphabet) (bytes : Bytes) :
    a.valueOf (positional a bytes) = littleEndian bytes := by
  rw [positional_eq, valueOf_map fun d => Nat.digits_lt_base a.one_lt_base, Nat.ofDigits_digits]

theorem positional_eq_iff : positional a bytes = positional a other ↔
    littleEndian bytes = littleEndian other := by
  constructor
  · intro h
    rw [← valueOf_positional a bytes, h, valueOf_positional]
  · intro h
    rw [positional_eq, h, ← positional_eq]

theorem mem_digits_of_mem_positional {c : Char} (h : c ∈ positional a bytes) : c ∈ a.digits := by
  rw [positional_eq] at h
  obtain ⟨d, hd, rfl⟩ := List.mem_map.1 h
  exact digit_mem (Nat.digits_lt_base a.one_lt_base (List.mem_reverse.1 hd))

theorem positional_eq_nil_iff : positional a bytes = [] ↔ ∀ b ∈ bytes, b = 0 := by
  rw [← littleEndian_eq_zero_iff, positional_eq, List.map_eq_nil_iff, List.reverse_eq_nil_iff,
    Nat.digits_eq_nil_iff_eq_zero]

theorem head?_positional_ne (a : Alphabet) (bytes : Bytes) :
    (positional a bytes).head? ≠ a.digits.head? := by
  have hpos : 0 < a.digits.length := by
    rw [a.length_digits]
    exact a.base_pos
  have hfirst : a.digits.head? = some (a.digits.getD 0 '0') := by
    rw [List.head?_eq_getElem?, List.getElem?_eq_getElem hpos, List.getD_eq_getElem _ _ hpos]
  rw [hfirst, positional_eq, List.head?_map, List.head?_reverse]
  intro h
  obtain ⟨d, hd, hchar⟩ := Option.map_eq_some_iff.1 h
  obtain ⟨hne, rfl⟩ := List.mem_getLast?_eq_getLast hd
  have hnumber : littleEndian bytes ≠ 0 := Nat.digits_ne_nil_iff_ne_zero.1 hne
  have hlt := Nat.digits_lt_base a.one_lt_base (List.getLast_mem hne)
  apply Nat.getLast_digit_ne_zero a.base hnumber
  rw [← idxOf_digit hlt, hchar, idxOf_digit a.base_pos]

theorem iterate_remaining_eq_nil_iff (a : Alphabet) (bytes : Bytes) (k : Nat) :
    (remaining a.base)^[k] (bytes.reverse.dropWhile (· == 0)) = [] ↔
      (positional a bytes).length ≤ k := by
  have hstripped (number : Bytes) :
      (number.dropWhile (· == 0)).dropWhile (· == 0) = number.dropWhile (· == 0) :=
    List.dropWhile_idempotent _ _
  have hround : ((remaining a.base)^[k] (bytes.reverse.dropWhile (· == 0))).dropWhile (· == 0) =
      (remaining a.base)^[k] (bytes.reverse.dropWhile (· == 0)) := by
    cases k with
    | zero => exact hstripped _
    | succ k =>
      rw [Function.iterate_succ_apply']
      exact hstripped _
  rw [← hround, dropWhile_eq_nil_iff_byteValue, byteValue_iterate_remaining a.base_pos,
    byteValue_dropWhile, byteValue_reverse, Nat.div_eq_zero_iff_lt (Nat.pow_pos a.base_pos),
    positional_eq, List.length_map, List.length_reverse,
    Nat.digits_length_le_iff a.one_lt_base]

end Texts

/-- Positional notation writes the number of the bytes, least significant byte first, in as many
digits as the division has rounds. It has no zero in front, is read back as the number, and tells
bytes apart but for zeros behind the last. -/
theorem positional_notation (a : Alphabet) :
    (∀ number : Bytes,
      (longDivide a.base 0 number).1.map UInt8.toNat = quotientDigits a.base 0 number ∧
      (remaining a.base number).map UInt8.toNat =
        (quotientDigits a.base 0 number).dropWhile (· == 0) ∧
      byteValue 0 (remaining a.base number) = byteValue 0 number / a.base ∧
      (longDivide a.base 0 number).2 = byteValue 0 number % a.base) ∧
    (∀ bytes : Bytes,
      (∀ k, (remaining a.base)^[k] (bytes.reverse.dropWhile (· == 0)) = [] ↔
        (positional a bytes).length ≤ k) ∧
      (∀ c ∈ positional a bytes, c ∈ a.digits) ∧
      a.valueOf (positional a bytes) = littleEndian bytes ∧
      (positional a bytes).head? ≠ a.digits.head? ∧
      (positional a bytes = [] ↔ ∀ b ∈ bytes, b = 0)) ∧
    ∀ bytes other : Bytes, positional a bytes = positional a other ↔
      ∃ m n, bytes ++ List.replicate m 0 = other ++ List.replicate n 0 := by
  refine ⟨fun number => ?_, fun bytes => ?_, fun bytes other => ?_⟩
  · exact ⟨map_toNat_longDivide a.base_pos number, map_toNat_remaining a.base_pos number,
      byteValue_remaining a.base_pos number, longDivide_snd a.base_pos number⟩
  · exact ⟨iterate_remaining_eq_nil_iff a bytes, fun c => mem_digits_of_mem_positional,
      valueOf_positional a bytes, head?_positional_ne a bytes, positional_eq_nil_iff⟩
  · rw [positional_eq_iff, littleEndian_eq_iff]

end CssModules.Digest
