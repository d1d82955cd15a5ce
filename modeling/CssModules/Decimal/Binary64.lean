namespace CssModules

/-- A floating-point number of 64 bits: a sign, eleven bits of exponent and 52 of fraction. -/
structure Binary64 where
  bits : UInt64
  deriving DecidableEq, Repr

namespace Binary64

def isNegative (x : Binary64) : Bool := x.bits >>> 63 != 0

def exponentBits (x : Binary64) : Nat := ((x.bits >>> 52) &&& 0x7FF).toNat

def fractionBits (x : Binary64) : Nat := (x.bits &&& 0xFFFFFFFFFFFFF).toNat

def isNaN (x : Binary64) : Bool := x.exponentBits == 0x7FF && x.fractionBits != 0

def isInfinite (x : Binary64) : Bool := x.exponentBits == 0x7FF && x.fractionBits == 0

def nan : Binary64 := ⟨0x7FF8000000000000⟩

def infinity (negative : Bool) : Binary64 :=
  ⟨if negative then 0xFFF0000000000000 else 0x7FF0000000000000⟩

/-- The number nearest to `digits * 10 ^ exponent`, of two equally near the one with an even
fraction. Beyond the exponents that are compared here every number is infinite or zero. -/
def nearest (negative : Bool) (digits : Nat) (exponent : Int) : Binary64 :=
  let size : Int := Nat.log2 digits / 3 + exponent
  let magnitude : UInt64 :=
    if digits = 0 ∨ size < -400 then 0
    else if 400 < exponent then 0x7FF0000000000000
    else (Float.ofScientific digits (exponent < 0) exponent.natAbs).toBits
  ⟨if negative then magnitude ||| 0x8000000000000000 else magnitude⟩

/-- An exact number, `significand * 2 ^ exponent`. It is `narrow` if the next smaller number is only
half as far away as the next larger one. -/
structure Magnitude where
  significand : Nat
  exponent : Int
  narrow : Bool
  deriving DecidableEq, Repr

def magnitude (x : Binary64) : Magnitude :=
  if x.exponentBits = 0 then ⟨x.fractionBits, -1074, false⟩
  else ⟨Nat.pow 2 52 + x.fractionBits, (x.exponentBits : Int) - 1075,
    x.fractionBits == 0 && x.exponentBits != 1⟩

namespace Magnitude

/-- A multiple of a power of ten that is nearer to a number than to its neighbours: of the two
multiples next to the number, the nearer one if both are, and the larger one if they are equally
near. All is compared in quarters of the last place of the number. -/
def multiple? (x : Magnitude) (power : Int) : Option Nat :=
  let unit := Nat.pow 2 x.exponent.toNat * Nat.pow 10 (-power).toNat
  let grid := 4 * Nat.pow 2 (-x.exponent).toNat * Nat.pow 10 power.toNat
  let value := 4 * x.significand * unit
  let low := (4 * x.significand - if x.narrow then 1 else 2) * unit
  let high := (4 * x.significand + 2) * unit
  let isEven := x.significand % 2 == 0
  let below := value / grid
  let above := below + 1
  let lowFits := low < below * grid || (isEven && low == below * grid)
  let highFits := above * grid < high || (isEven && above * grid == high)
  match lowFits, highFits with
  | true, true =>
    if 2 * value < (below + above) * grid then some below else some above
  | true, false => some below
  | false, true => some above
  | false, false => none

def decimalSize (x : Magnitude) : Int :=
  ((Nat.log2 x.significand : Int) + 1 + x.exponent) * 30103 / 100000 + 1

/-- The multiple of the first of `fuel` powers of ten, largest first, that stands for a number, with
that power. -/
def search (x : Magnitude) : (fuel : Nat) → (power : Int) → Option (Nat × Int)
  | 0, _ => none
  | fuel + 1, power =>
    match x.multiple? power with
    | some digits => some (digits, power)
    | none => x.search fuel (power - 1)

def exact (x : Magnitude) : Nat × Int :=
  if 0 ≤ x.exponent then (x.significand * Nat.pow 2 x.exponent.toNat, 0)
  else (x.significand * Nat.pow 5 (-x.exponent).toNat, x.exponent)

/-- The shortest decimal of a number: its digits and the power of ten that the last one counts. -/
def shortest (x : Magnitude) : Nat × Int :=
  if x.significand = 0 then (0, 0) else (x.search 20 x.decimalSize).getD x.exact

end Magnitude

end Binary64

end CssModules
