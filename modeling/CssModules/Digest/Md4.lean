import CssModules.Digest.Word

namespace CssModules.Digest.Md4

abbrev Word := BitVec 32

/-- The four chaining words. -/
structure State where
  a : Word
  b : Word
  c : Word
  d : Word

def State.initial : State := ⟨0x67452301, 0xEFCDAB89, 0x98BADCFE, 0x10325476⟩

/-- One of the three rounds: what it mixes, the order in which it takes the message words, its
rotations (four in turn) and the constant that it adds. -/
structure Round where
  mix : Word → Word → Word → Word
  order : List Nat
  shifts : Array Nat
  constant : Word

def rounds : List Round :=
  [{ mix := fun x y z => (x &&& y) ||| (~~~x &&& z)
     order := List.range 16
     shifts := #[3, 7, 11, 19]
     constant := 0 },
   { mix := fun x y z => (x &&& y) ||| (x &&& z) ||| (y &&& z)
     order := [0, 4, 8, 12, 1, 5, 9, 13, 2, 6, 10, 14, 3, 7, 11, 15]
     shifts := #[3, 5, 9, 13]
     constant := 0x5A827999 },
   { mix := fun x y z => x ^^^ y ^^^ z
     order := [0, 8, 4, 12, 2, 10, 6, 14, 1, 9, 5, 13, 3, 11, 7, 15]
     shifts := #[3, 9, 11, 15]
     constant := 0x6ED9EBA1 }]

def Round.step (r : Round) (word : Word) (shift : Nat) (s : State) : State :=
  ⟨s.d, (s.a + r.mix s.b s.c s.d + word + r.constant).rotateLeft shift, s.b, s.c⟩

def Round.run (r : Round) (words : Array Word) (s : State) : State :=
  r.order.zipIdx.foldl
    (fun s (k, i) => r.step (words.getD k 0) (r.shifts.getD (i % 4) 0) s) s

def compress (s : State) (words : Array Word) : State :=
  let t := rounds.foldl (fun t r => r.run words t) s
  ⟨s.a + t.a, s.b + t.b, s.c + t.c, s.d + t.d⟩

def digest (message : Bytes) : Bytes :=
  let text := padded 64 8 message ++ toLittleEndian 8 (8 * message.length)
  let s := (blocks 64 text).foldl
    (fun s block => compress s (littleEndianWords 32 block).toArray) State.initial
  [s.a, s.b, s.c, s.d].flatMap fun w => toLittleEndian 4 w.toNat

end CssModules.Digest.Md4
