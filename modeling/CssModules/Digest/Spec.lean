import CssModules.Digest.Algorithm
import CssModules.Digest.Encoding

namespace CssModules.Digest

/-- How a digest is made and how long it is; without a length it is not cut. -/
structure Spec where
  algorithm : Algorithm
  encoding : Encoding
  length : Option Nat
  deriving DecidableEq, Repr

def Spec.default : Spec := ⟨.md4, .hex, some 20⟩

instance : Inhabited Spec := ⟨.default⟩

def truncate (length : Option Nat) (text : List Char) : List Char :=
  match length with
  | some n => text.take n
  | none => text

/-- The characters of a text that an identifier can hold, without the digits it starts with: `/`
becomes `_`, and everything but ASCII letters, digits and `_` is dropped. -/
def identifierSafe (text : List Char) : List Char :=
  (text.dropWhile Char.isDigit).filterMap fun c =>
    if c = '/' then some '_' else if c.isAlphanum || c == '_' then some c else none

/-- The text of tier `tier`: the digest of the salt, the tier in four bytes, and the content. -/
def tierText (digest : Bytes → Bytes) (encoding : Encoding) (salt content : Bytes) (tier : Nat) :
    List Char :=
  encoding.encode (digest (salt ++ toLittleEndian 4 tier ++ content))

/-- Adds tiers, made safe, to `text` until there are `length` characters: `none` if `fuel` tiers are
not enough. -/
def extendTiers (tierText : Nat → List Char) (length : Nat) :
    (fuel tier : Nat) → (text : List Char) → Option (List Char)
  | 0, _, _ => none
  | fuel + 1, tier, text =>
    let text := identifierSafe (text ++ tierText tier)
    if length ≤ text.length then some (text.take length)
    else extendTiers tierText length fuel (tier + 1) text

/-- The number of tiers there are: one for each value of four bytes. -/
def tierCount : Nat := Nat.pow 2 32

/-- The digest that is extended tier by tier to its length, without a length that of the first
tier; `none` if all tiers together are too short. -/
def tieredDigest? (digest : Bytes → Bytes) (encoding : Encoding) (length : Option Nat)
    (salt content : Bytes) : Option (List Char) :=
  let tier := tierText digest encoding salt content
  match length with
  | some n => extendTiers tier n tierCount 0 []
  | none => some (identifierSafe (tier 0))

def singleDigest (digest : Bytes → Bytes) (encoding : Encoding) (length : Option Nat)
    (salt content : Bytes) : List Char :=
  truncate length (encoding.encode (digest (salt ++ content)))

/-- How a digest becomes part of a name. -/
inductive Mode where
  | tiered
  | single
  deriving DecidableEq, Repr

def Mode.name : Mode → String
  | tiered => "tiered"
  | single => "single"

def Mode.ofName? (text : String) : Option Mode := [tiered, single].find? (·.name == text)

/-- A text with `+` and `/` replaced by `_`, and the first character too if it is a digit. -/
def guarded (text : List Char) : List Char :=
  match text.map fun c => if c = '+' ∨ c = '/' then '_' else c with
  | [] => []
  | c :: cs => (if c.isDigit then '_' else c) :: cs

def Spec.digest (spec : Spec) (content salt : Bytes) : String :=
  String.ofList (singleDigest spec.algorithm.digest spec.encoding spec.length salt content)

def Mode.apply (mode : Mode) (spec : Spec) (content salt : Bytes) : String :=
  String.ofList <| match mode with
  | tiered =>
    (tieredDigest? spec.algorithm.digest spec.encoding spec.length salt content).getD []
  | single =>
    guarded (singleDigest spec.algorithm.digest spec.encoding spec.length salt content)

end CssModules.Digest
