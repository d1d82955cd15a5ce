import CssModules.Digest.Word

namespace CssModules.Digest.Sha1

abbrev Word := BitVec 32

/-- The five chaining words. -/
structure State where
  a : Word
  b : Word
  c : Word
  d : Word
  e : Word

def State.initial : State := ⟨0x67452301, 0xEFCDAB89, 0x98BADCFE, 0x10325476, 0xC3D2E1F0⟩

def mix (t : Nat) (x y z : Word) : Word :=
  if t < 20 then ((x &&& y) ||| (~~~x &&& z)) + 0x5A827999
  else if t < 40 then (x ^^^ y ^^^ z) + 0x6ED9EBA1
  else if t < 60 then ((x &&& y) ||| (x &&& z) ||| (y &&& z)) + 0x8F1BBCDC
  else (x ^^^ y ^^^ z) + 0xCA62C1D6

def schedule (words : Array Word) : Array Word :=
  (List.range 64).foldl
    (fun w t =>
      w.push ((w.getD (t + 13) 0 ^^^ w.getD (t + 8) 0 ^^^ w.getD (t + 2) 0 ^^^
        w.getD t 0).rotateLeft 1)) words

def step (t : Nat) (word : Word) (s : State) : State :=
  ⟨s.a.rotateLeft 5 + mix t s.b s.c s.d + s.e + word, s.a, s.b.rotateLeft 30, s.c, s.d⟩

def compress (s : State) (words : Array Word) : State :=
  let r := (schedule words).toList.zipIdx.foldl (fun r (word, t) => step t word r) s
  ⟨s.a + r.a, s.b + r.b, s.c + r.c, s.d + r.d, s.e + r.e⟩

def digest (message : Bytes) : Bytes :=
  let text := padded 64 8 message ++ toBigEndian 8 (8 * message.length)
  let s := (blocks 64 text).foldl
    (fun s block => compress s (bigEndianWords 32 block).toArray) State.initial
  [s.a, s.b, s.c, s.d, s.e].flatMap fun w => toBigEndian 4 w.toNat

end CssModules.Digest.Sha1
