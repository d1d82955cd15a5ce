import CssModules.Digest.Word
import CssModules.Error

namespace CssModules.Digest

/-- The alphabets of positional notation, named for their size. -/
inductive Alphabet where
  | base26
  | base32
  | base36
  | base49
  | base52
  | base58
  | base62
  deriving DecidableEq, Repr

/-- The digits of an alphabet in order. Some alphabets leave out what is easily misread. -/
def Alphabet.digits : Alphabet → List Char
  | base26 => "abcdefghijklmnopqrstuvwxyz".toList
  | base32 => "123456789abcdefghjkmnpqrstuvwxyz".toList
  | base36 => "0123456789abcdefghijklmnopqrstuvwxyz".toList
  | base49 => "abcdefghijkmnopqrstuvwxyzABCDEFGHJKLMNPQRSTUVWXYZ".toList
  | base52 => "abcdefghijklmnopqrstuvwxyzABCDEFGHIJKLMNOPQRSTUVWXYZ".toList
  | base58 => "123456789abcdefghijkmnopqrstuvwxyzABCDEFGHJKLMNPQRSTUVWXYZ".toList
  | base62 => "0123456789abcdefghijklmnopqrstuvwxyzABCDEFGHIJKLMNOPQRSTUVWXYZ".toList

def Alphabet.base : Alphabet → Nat
  | base26 => 26
  | base32 => 32
  | base36 => 36
  | base49 => 49
  | base52 => 52
  | base58 => 58
  | base62 => 62

theorem Alphabet.length_digits (a : Alphabet) : a.digits.length = a.base := by
  cases a <;> rfl

theorem Alphabet.one_lt_base (a : Alphabet) : 1 < a.base := by
  cases a <;> decide

/-- The number whose base-256 digits are the bytes, most significant first, behind the digits of
`carry`. -/
def byteValue (carry : Nat) (bytes : Bytes) : Nat :=
  bytes.foldl (fun n b => n * 256 + b.toNat) carry

/-- Long division of a number given by its bytes, most significant first: the bytes of the quotient
and the remainder. -/
def longDivide (base : Nat) (carry : Nat) : Bytes → Bytes × Nat
  | [] => ([], carry)
  | b :: bytes =>
    let part := carry * 256 + b.toNat
    let (quotient, remainder) := longDivide base (part % base) bytes
    (UInt8.ofNat (part / base) :: quotient, remainder)

theorem byteValue_longDivide {base : Nat} (h : 0 < base) (bytes : Bytes) (carry : Nat)
    (hc : carry < base) (high : Nat) :
    byteValue (high * base + carry) bytes =
      byteValue high (longDivide base carry bytes).1 * base + (longDivide base carry bytes).2 := by
  induction bytes generalizing carry high with
  | nil => rfl
  | cons b bytes ih =>
    have hb : b.toNat < 256 := b.toNat_lt
    have hq : (carry * 256 + b.toNat) / base < 256 := by
      rw [Nat.div_lt_iff_lt_mul h]
      have : (carry + 1) * 256 ≤ base * 256 := Nat.mul_le_mul_right 256 hc
      omega
    have key := ih _ (Nat.mod_lt (carry * 256 + b.toNat) h)
      (high * 256 + (carry * 256 + b.toNat) / base)
    have e : (high * base + carry) * 256 + b.toNat =
        (high * 256 + (carry * 256 + b.toNat) / base) * base + (carry * 256 + b.toNat) % base := by
      have := Nat.div_add_mod' (carry * 256 + b.toNat) base
      rw [Nat.add_mul, Nat.add_mul, Nat.mul_right_comm]
      omega
    simp only [byteValue, List.foldl_cons, longDivide] at key ⊢
    rw [e, key, UInt8.toNat_ofNat_of_lt' (by exact hq)]

theorem longDivide_lt {base : Nat} (h : 0 < base) (bytes : Bytes) {carry : Nat}
    (hc : carry < base) : (longDivide base carry bytes).2 < base := by
  induction bytes generalizing carry with
  | nil => exact hc
  | cons b bytes ih => exact ih (Nat.mod_lt _ h)

theorem byteValue_dropWhile (bytes : Bytes) :
    byteValue 0 (bytes.dropWhile (· == 0)) = byteValue 0 bytes := by
  induction bytes with
  | nil => rfl
  | cons b bytes ih =>
    simp only [List.dropWhile]
    split
    · next hz =>
      have : b = 0 := by simpa using hz
      rw [ih, this]
      rfl
    · rfl

theorem le_byteValue (carry : Nat) (bytes : Bytes) : carry ≤ byteValue carry bytes := by
  induction bytes generalizing carry with
  | nil => exact Nat.le_refl _
  | cons b bytes ih =>
    refine Nat.le_trans ?_ (ih (carry * 256 + b.toNat))
    omega

theorem byteValue_pos {b : UInt8} {bytes : Bytes} (h : b ≠ 0) : 0 < byteValue 0 (b :: bytes) := by
  have hb : 0 < b.toNat := by
    rcases Nat.eq_zero_or_pos b.toNat with hz | hz
    · exact absurd (UInt8.toNat_inj.mp hz) h
    · exact hz
  refine Nat.lt_of_lt_of_le hb ?_
  have := le_byteValue (0 * 256 + b.toNat) bytes
  simp only [byteValue, List.foldl_cons] at this ⊢
  omega

/-- The digits of a number given by its bytes, most significant first: the number is divided by the
base until nothing is left of it. -/
def positionalDigits (a : Alphabet) (number : Bytes) : List Nat :=
  match _h : number.dropWhile (· == 0) with
  | [] => []
  | b :: bytes =>
    positionalDigits a (longDivide a.base 0 (b :: bytes)).1 ++
      [(longDivide a.base 0 (b :: bytes)).2]
termination_by byteValue 0 number
decreasing_by
  have hb : b ≠ 0 := by
    have := List.head_dropWhile_not (· == 0)
      (show number.dropWhile (· == 0) ≠ [] by rw [_h]; simp)
    simp only [_h, List.head_cons] at this
    simpa using this
  have hpos : 0 < byteValue 0 (b :: bytes) := byteValue_pos hb
  have hbase := a.one_lt_base
  have key := byteValue_longDivide (Nat.lt_of_lt_of_le Nat.zero_lt_one (Nat.le_of_lt hbase))
    (b :: bytes) 0 (by omega) 0
  rw [← byteValue_dropWhile number, _h]
  simp only [Nat.zero_mul, Nat.add_zero] at key
  rw [key] at hpos ⊢
  rcases Nat.eq_zero_or_pos (byteValue 0 (longDivide a.base 0 (b :: bytes)).1) with hz | hz
  · rw [hz] at hpos ⊢
    omega
  · have := Nat.mul_le_mul_left (byteValue 0 (longDivide a.base 0 (b :: bytes)).1) hbase
    omega

/-- The bytes as one number, least significant byte first, in positional notation. -/
def positional (a : Alphabet) (bytes : Bytes) : List Char :=
  (positionalDigits a bytes.reverse).map fun d => a.digits.getD d '0'

def hexPair (b : UInt8) : List Char :=
  [Nat.digitChar (b.toNat / 16), Nat.digitChar (b.toNat % 16)]

def base64Digits : List Char :=
  "ABCDEFGHIJKLMNOPQRSTUVWXYZabcdefghijklmnopqrstuvwxyz0123456789".toList

/-- The digit of base 64 for a value below 64, the last two being `d62` and `d63`. -/
def base64Digit (d62 d63 : Char) (n : Nat) : Char :=
  if n = 62 then d62 else base64Digits.getD n d63

/-- Base 64: three bytes make four digits; a last group of fewer is short, and is filled up by
`padding`. -/
def base64 (d62 d63 : Char) (padding : List Char) : Bytes → List Char
  | [] => []
  | [a] =>
    let n := a.toNat * 16
    [n / 64, n % 64].map (base64Digit d62 d63) ++ padding ++ padding
  | [a, b] =>
    let n := (a.toNat * 256 + b.toNat) * 4
    [n / 64 ^ 2, n / 64 % 64, n % 64].map (base64Digit d62 d63) ++ padding
  | a :: b :: c :: bytes =>
    let n := (a.toNat * 256 + b.toNat) * 256 + c.toNat
    [n / 64 ^ 3, n / 64 ^ 2 % 64, n / 64 % 64, n % 64].map (base64Digit d62 d63) ++
      base64 d62 d63 padding bytes

/-- A way to write digest bytes. -/
inductive Encoding where
  | hex
  | base64
  | base64Url
  | positional (alphabet : Alphabet)
  deriving DecidableEq, Repr

namespace Encoding

def all : List Encoding :=
  [hex, base64, base64Url, positional .base26, positional .base32, positional .base36,
    positional .base49, positional .base52, positional .base58, positional .base62]

def name : Encoding → String
  | hex => "hex"
  | base64 => "base64"
  | base64Url => "base64url"
  | positional alphabet => "base" ++ toString alphabet.base

def encode : Encoding → Bytes → List Char
  | hex, bytes => bytes.flatMap hexPair
  | base64, bytes => Digest.base64 '+' '/' ['='] bytes
  | base64Url, bytes => Digest.base64 '-' '_' [] bytes
  | positional alphabet, bytes => Digest.positional alphabet bytes

def ofName? (text : String) : Option Encoding := all.find? (·.name == text.toLower)

def parse (text : String) : Except Error Encoding :=
  match ofName? text with
  | some e => .ok e
  | none => .error (.configuration (.unknownEncoding text.toLower))

end Encoding

end CssModules.Digest
