import CssModules.Digest.Word

namespace CssModules.Digest.Xxh64

abbrev Word := BitVec 64

def prime1 : Word := 0x9E3779B185EBCA87
def prime2 : Word := 0xC2B2AE3D27D4EB4F
def prime3 : Word := 0x165667B19E3779F9
def prime4 : Word := 0x85EBCA77C2B2AE63
def prime5 : Word := 0x27D4EB2F165667C5

def round (acc word : Word) : Word := (acc + word * prime2).rotateLeft 31 * prime1

/-- The four lanes. -/
structure Lanes where
  v₁ : Word
  v₂ : Word
  v₃ : Word
  v₄ : Word

def Lanes.initial : Lanes := ⟨prime1 + prime2, prime2, 0, 0 - prime1⟩

def Lanes.absorb (l : Lanes) (stripe : Bytes) : Lanes :=
  let words := (littleEndianWords 64 stripe).toArray
  ⟨round l.v₁ (words.getD 0 0), round l.v₂ (words.getD 1 0), round l.v₃ (words.getD 2 0),
    round l.v₄ (words.getD 3 0)⟩

def Lanes.merge (l : Lanes) : Word :=
  [l.v₁, l.v₂, l.v₃, l.v₄].foldl (fun h v => (h ^^^ round 0 v) * prime1 + prime4)
    (l.v₁.rotateLeft 1 + l.v₂.rotateLeft 7 + l.v₃.rotateLeft 12 + l.v₄.rotateLeft 18)

/-- Mixes in the bytes behind the last stripe: words of eight bytes, then one of four, then single
bytes. -/
def absorbTail (h : Word) (tail : Bytes) : Word :=
  let wide := tail.length / 8 * 8
  let h := (blocks 8 (tail.take wide)).foldl
    (fun h b => (h ^^^ round 0 (BitVec.ofNat 64 (littleEndian b))).rotateLeft 27 * prime1 + prime4) h
  let rest := tail.drop wide
  let half := rest.length / 4 * 4
  let h := (blocks 4 (rest.take half)).foldl
    (fun h b => (h ^^^ BitVec.ofNat 64 (littleEndian b) * prime1).rotateLeft 23 * prime2 + prime3) h
  (rest.drop half).foldl
    (fun h b => (h ^^^ BitVec.ofNat 64 b.toNat * prime5).rotateLeft 11 * prime1) h

def avalanche (h : Word) : Word :=
  let h := (h ^^^ (h >>> 33)) * prime2
  let h := (h ^^^ (h >>> 29)) * prime3
  h ^^^ (h >>> 32)

def checksum (message : Bytes) : Word :=
  let striped := message.length / 32 * 32
  let h := if striped = 0 then prime5
    else ((blocks 32 (message.take striped)).foldl Lanes.absorb Lanes.initial).merge
  avalanche (absorbTail (h + BitVec.ofNat 64 message.length) (message.drop striped))

def digest (message : Bytes) : Bytes := toBigEndian 8 (checksum message).toNat

end CssModules.Digest.Xxh64
