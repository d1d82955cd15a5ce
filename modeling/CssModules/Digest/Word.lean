namespace CssModules.Digest

abbrev Bytes := List UInt8

def littleEndian (bytes : Bytes) : Nat := bytes.foldr (fun b n => b.toNat + 256 * n) 0

def bigEndian (bytes : Bytes) : Nat := bytes.foldl (fun n b => 256 * n + b.toNat) 0

def toLittleEndian : (count : Nat) → Nat → Bytes
  | 0, _ => []
  | count + 1, n => UInt8.ofNat n :: toLittleEndian count (n / 256)

def toBigEndian (count n : Nat) : Bytes := (toLittleEndian count n).reverse

/-- A list cut into stretches of `size` elements; the last one may be shorter. -/
def blocks {α : Type} (size : Nat) (xs : List α) : List (List α) :=
  if _h : size = 0 ∨ xs = [] then []
  else xs.take size :: blocks size (xs.drop size)
termination_by xs.length
decreasing_by
  have : 0 < xs.length := List.length_pos_iff.mpr fun e => _h (.inr e)
  simp only [List.length_drop]
  omega

def littleEndianWords (w : Nat) (bytes : Bytes) : List (BitVec w) :=
  (blocks (w / 8) bytes).map fun b => BitVec.ofNat w (littleEndian b)

def bigEndianWords (w : Nat) (bytes : Bytes) : List (BitVec w) :=
  (blocks (w / 8) bytes).map fun b => BitVec.ofNat w (bigEndian b)

/-- A message closed by a one bit and zeros so that, with `lengthSize` bytes more for its length,
it fills whole blocks. -/
def padded (blockSize lengthSize : Nat) (message : Bytes) : Bytes :=
  let used := message.length + 1 + lengthSize
  message ++ 0x80 :: List.replicate ((blockSize - used % blockSize) % blockSize) 0

end CssModules.Digest
