import CssModules.Digest.Word

namespace CssModules.Digest.Md5

abbrev Word := BitVec 32

/-- The four chaining words. -/
structure State where
  a : Word
  b : Word
  c : Word
  d : Word

def State.initial : State := ⟨0x67452301, 0xEFCDAB89, 0x98BADCFE, 0x10325476⟩

/-- The constant of each step: the first 32 bits after the point of the sine of its number,
counted from one, sign left out. -/
def sines : Array Word :=
  #[
    0xD76AA478, 0xE8C7B756, 0x242070DB, 0xC1BDCEEE, 0xF57C0FAF, 0x4787C62A,
    0xA8304613, 0xFD469501, 0x698098D8, 0x8B44F7AF, 0xFFFF5BB1, 0x895CD7BE,
    0x6B901122, 0xFD987193, 0xA679438E, 0x49B40821, 0xF61E2562, 0xC040B340,
    0x265E5A51, 0xE9B6C7AA, 0xD62F105D, 0x02441453, 0xD8A1E681, 0xE7D3FBC8,
    0x21E1CDE6, 0xC33707D6, 0xF4D50D87, 0x455A14ED, 0xA9E3E905, 0xFCEFA3F8,
    0x676F02D9, 0x8D2A4C8A, 0xFFFA3942, 0x8771F681, 0x6D9D6122, 0xFDE5380C,
    0xA4BEEA44, 0x4BDECFA9, 0xF6BB4B60, 0xBEBFBC70, 0x289B7EC6, 0xEAA127FA,
    0xD4EF3085, 0x04881D05, 0xD9D4D039, 0xE6DB99E5, 0x1FA27CF8, 0xC4AC5665,
    0xF4292244, 0x432AFF97, 0xAB9423A7, 0xFC93A039, 0x655B59C3, 0x8F0CCC92,
    0xFFEFF47D, 0x85845DD1, 0x6FA87E4F, 0xFE2CE6E0, 0xA3014314, 0x4E0811A1,
    0xF7537E82, 0xBD3AF235, 0x2AD7D2BB, 0xEB86D391]

/-- One of the four rounds: what it mixes, which message word its step `i` takes, and its rotations
(four in turn). -/
structure Round where
  mix : Word → Word → Word → Word
  index : Nat → Nat
  shifts : Array Nat

def rounds : List Round :=
  [{ mix := fun x y z => (x &&& y) ||| (~~~x &&& z), index := fun i => i
     shifts := #[7, 12, 17, 22] },
   { mix := fun x y z => (x &&& z) ||| (y &&& ~~~z), index := fun i => 5 * i + 1
     shifts := #[5, 9, 14, 20] },
   { mix := fun x y z => x ^^^ y ^^^ z, index := fun i => 3 * i + 5
     shifts := #[4, 11, 16, 23] },
   { mix := fun x y z => y ^^^ (x ||| ~~~z), index := fun i => 7 * i
     shifts := #[6, 10, 15, 21] }]

def Round.step (r : Round) (word constant : Word) (shift : Nat) (s : State) : State :=
  ⟨s.d, s.b + (s.a + r.mix s.b s.c s.d + word + constant).rotateLeft shift, s.b, s.c⟩

def Round.run (r : Round) (number : Nat) (words : Array Word) (s : State) : State :=
  (List.range 16).foldl
    (fun s i => r.step (words.getD (r.index i % 16) 0) (sines.getD (16 * number + i) 0)
      (r.shifts.getD (i % 4) 0) s) s

def compress (s : State) (words : Array Word) : State :=
  let t := rounds.zipIdx.foldl (fun t (r, number) => r.run number words t) s
  ⟨s.a + t.a, s.b + t.b, s.c + t.c, s.d + t.d⟩

def digest (message : Bytes) : Bytes :=
  let text := padded 64 8 message ++ toLittleEndian 8 (8 * message.length)
  let s := (blocks 64 text).foldl
    (fun s block => compress s (littleEndianWords 32 block).toArray) State.initial
  [s.a, s.b, s.c, s.d].flatMap fun w => toLittleEndian 4 w.toNat

end CssModules.Digest.Md5
