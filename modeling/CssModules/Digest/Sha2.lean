import CssModules.Digest.Word

namespace CssModules.Digest.Sha2

def primes (count : Nat) : List Nat :=
  ((List.range 420).filter fun n =>
    2 ≤ n && (List.range n).all fun d => d < 2 || n % d != 0).take count

def root (k bits n : Nat) : Nat :=
  (List.range bits).foldr
    (fun i r => if Nat.pow (r + Nat.pow 2 i) k ≤ n then r + Nat.pow 2 i else r) 0

def rootFraction (k w n : Nat) : BitVec w :=
  BitVec.ofNat w (root k (w + 8) (n * Nat.pow 2 (k * w)))

/-- What tells the digests apart: the number of rounds and the amounts of their rotations, the last
amount of a small sigma being a shift. -/
structure Variant where
  rounds : Nat
  bigSigma0 : Nat × Nat × Nat
  bigSigma1 : Nat × Nat × Nat
  smallSigma0 : Nat × Nat × Nat
  smallSigma1 : Nat × Nat × Nat

/-- The eight chaining words. -/
structure State (w : Nat) where
  a : BitVec w
  b : BitVec w
  c : BitVec w
  d : BitVec w
  e : BitVec w
  f : BitVec w
  g : BitVec w
  h : BitVec w

def State.toList {w : Nat} (s : State w) : List (BitVec w) :=
  [s.a, s.b, s.c, s.d, s.e, s.f, s.g, s.h]

/-- The chaining words before the first block: from the square roots of the first eight primes. -/
def State.initial (w : Nat) : State w :=
  ⟨rootFraction 2 w 2, rootFraction 2 w 3, rootFraction 2 w 5, rootFraction 2 w 7,
    rootFraction 2 w 11, rootFraction 2 w 13, rootFraction 2 w 17, rootFraction 2 w 19⟩

/-- The round constants: from the cube roots of the first primes. -/
def constants (w rounds : Nat) : List (BitVec w) := (primes rounds).map (rootFraction 3 w)

def bigSigma {w : Nat} (amounts : Nat × Nat × Nat) (x : BitVec w) : BitVec w :=
  x.rotateRight amounts.1 ^^^ x.rotateRight amounts.2.1 ^^^ x.rotateRight amounts.2.2

def smallSigma {w : Nat} (amounts : Nat × Nat × Nat) (x : BitVec w) : BitVec w :=
  x.rotateRight amounts.1 ^^^ x.rotateRight amounts.2.1 ^^^ (x >>> amounts.2.2)

def schedule {w : Nat} (v : Variant) (words : Array (BitVec w)) : Array (BitVec w) :=
  (List.range (v.rounds - 16)).foldl
    (fun ws t =>
      ws.push (smallSigma v.smallSigma1 (ws.getD (t + 14) 0) + ws.getD (t + 9) 0 +
        smallSigma v.smallSigma0 (ws.getD (t + 1) 0) + ws.getD t 0)) words

def round {w : Nat} (v : Variant) (word constant : BitVec w) (s : State w) : State w :=
  let choice := (s.e &&& s.f) ^^^ (~~~s.e &&& s.g)
  let majority := (s.a &&& s.b) ^^^ (s.a &&& s.c) ^^^ (s.b &&& s.c)
  let t := s.h + bigSigma v.bigSigma1 s.e + choice + constant + word
  ⟨t + (bigSigma v.bigSigma0 s.a + majority), s.a, s.b, s.c, s.d + t, s.e, s.f, s.g⟩

def compress {w : Nat} (v : Variant) (ks : List (BitVec w)) (s : State w)
    (words : Array (BitVec w)) : State w :=
  let r := ((schedule v words).toList.zip ks).foldl (fun r (word, k) => round v word k r) s
  ⟨s.a + r.a, s.b + r.b, s.c + r.c, s.d + r.d, s.e + r.e, s.f + r.f, s.g + r.g, s.h + r.h⟩

def digest {w : Nat} (v : Variant) (ks : List (BitVec w)) (start : State w) (message : Bytes) :
    Bytes :=
  let text := padded (2 * w) (w / 4) message ++ toBigEndian (w / 4) (8 * message.length)
  let s := (blocks (2 * w) text).foldl
    (fun s block => compress v ks s (bigEndianWords w block).toArray) start
  s.toList.flatMap fun x => toBigEndian (w / 8) x.toNat

def sha256Variant : Variant where
  rounds := 64
  bigSigma0 := (2, 13, 22)
  bigSigma1 := (6, 11, 25)
  smallSigma0 := (7, 18, 3)
  smallSigma1 := (17, 19, 10)

def sha512Variant : Variant where
  rounds := 80
  bigSigma0 := (28, 34, 39)
  bigSigma1 := (14, 18, 41)
  smallSigma0 := (1, 8, 7)
  smallSigma1 := (19, 61, 6)

def sha256Constants : List (BitVec 32) := constants 32 64

def sha512Constants : List (BitVec 64) := constants 64 80

def sha256Start : State 32 := State.initial 32

def sha512Start : State 64 := State.initial 64

def sha256 (message : Bytes) : Bytes := digest sha256Variant sha256Constants sha256Start message

def sha512 (message : Bytes) : Bytes := digest sha512Variant sha512Constants sha512Start message

end CssModules.Digest.Sha2
