import CssModules.Digest.Sha2

namespace CssModules.Digest.Blake3

abbrev Word := BitVec 32

def start : Array Word := Sha2.sha256Start.toList.toArray

def chunkStart : Nat := 1
def chunkEnd : Nat := 2
def parent : Nat := 4
def root : Nat := 8

def permutation : List Nat := [2, 6, 3, 10, 7, 0, 4, 13, 1, 11, 12, 5, 9, 14, 15, 8]

def mix (s : Array Word) (a b c d : Nat) (x y : Word) : Array Word :=
  let a₁ := s.getD a 0 + s.getD b 0 + x
  let d₁ := (s.getD d 0 ^^^ a₁).rotateRight 16
  let c₁ := s.getD c 0 + d₁
  let b₁ := (s.getD b 0 ^^^ c₁).rotateRight 12
  let a₂ := a₁ + b₁ + y
  let d₂ := (d₁ ^^^ a₂).rotateRight 8
  let c₂ := c₁ + d₂
  let b₂ := (b₁ ^^^ c₂).rotateRight 7
  (((s.setIfInBounds a a₂).setIfInBounds b b₂).setIfInBounds c c₂).setIfInBounds d d₂

def round (s m : Array Word) : Array Word :=
  [(0, 4, 8, 12), (1, 5, 9, 13), (2, 6, 10, 14), (3, 7, 11, 15),
    (0, 5, 10, 15), (1, 6, 11, 12), (2, 7, 8, 13), (3, 4, 9, 14)].zipIdx.foldl
    (fun s ((a, b, c, d), i) => mix s a b c d (m.getD (2 * i) 0) (m.getD (2 * i + 1) 0)) s

/-- What a node of the tree feeds to the compression. -/
structure Node where
  chaining : Array Word
  message : Array Word
  counter : Nat
  size : Nat
  flags : Nat

def Node.compress (n : Node) (flags : Nat) : Array Word :=
  let begin : Array Word := n.chaining ++ start.take 4 ++
    #[BitVec.ofNat 32 n.counter, BitVec.ofNat 32 (n.counter / Nat.pow 2 32), BitVec.ofNat 32 n.size,
      BitVec.ofNat 32 (n.flags ||| flags)]
  let (s, _) := (List.range 7).foldl
    (fun (s, m) _ => (round s m, (permutation.map fun i => m.getD i 0).toArray))
    (begin, n.message)
  (List.range 8).toArray.map fun i => s.getD i 0 ^^^ s.getD (i + 8) 0

def blockWords (block : Bytes) : Array Word :=
  (littleEndianWords 32 (block ++ List.replicate (64 - block.length) 0)).toArray

/-- The node of a chunk's last blocks, `chaining` being the value so far and `flags` marking the
first one of them. -/
def chunkNode (counter : Nat) : List Bytes → (chaining : Array Word) → (flags : Nat) → Node
  | [], chaining, flags => ⟨chaining, blockWords [], counter, 0, flags ||| chunkEnd⟩
  | [b], chaining, flags => ⟨chaining, blockWords b, counter, b.length, flags ||| chunkEnd⟩
  | b :: c :: bs, chaining, flags =>
    chunkNode counter (c :: bs) ((Node.mk chaining (blockWords b) counter b.length flags).compress 0)
      0

/-- The number of bytes that go to the left subtree: the most full chunks that are a power of two
and leave something for the right. -/
def leftSize (size : Nat) : Nat := 1024 * Nat.pow 2 (Nat.log2 ((size - 1) / 1024))

def node (counter : Nat) (bytes : Bytes) : Node :=
  if _h : bytes.length ≤ 1024 then chunkNode counter (blocks 64 bytes) start chunkStart
  else
    let size := leftSize bytes.length
    let left := node counter (bytes.take size)
    let right := node (counter + size / 1024) (bytes.drop size)
    ⟨start, left.compress 0 ++ right.compress 0, 0, 64, parent⟩
termination_by bytes.length
decreasing_by
  · have hq : (bytes.length - 1) / 1024 ≠ 0 := by omega
    have := Nat.log2_self_le hq
    simp only [List.length_take, leftSize, Nat.pow_eq]
    omega
  · have := Nat.two_pow_pos (Nat.log2 ((bytes.length - 1) / 1024))
    simp only [List.length_drop, leftSize, Nat.pow_eq]
    omega

def digest (message : Bytes) : Bytes :=
  ((node 0 message).compress root).toList.flatMap fun w => toLittleEndian 4 w.toNat

end CssModules.Digest.Blake3
