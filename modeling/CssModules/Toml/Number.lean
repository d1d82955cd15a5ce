import CssModules.Decimal.Binary64

namespace CssModules.Toml

def moreDigits (isDigit : Char → Bool) : List Char → Option (List Char × List Char)
  | '_' :: c :: cs =>
    if isDigit c then (moreDigits isDigit cs).map fun (digits, rest) => (c :: digits, rest)
    else none
  | c :: cs =>
    if isDigit c then (moreDigits isDigit cs).map fun (digits, rest) => (c :: digits, rest)
    else if c = '_' then none
    else some ([], c :: cs)
  | [] => some ([], [])

def someDigits (isDigit : Char → Bool) : List Char → Option (List Char × List Char)
  | c :: cs =>
    if isDigit c then (moreDigits isDigit cs).map fun (digits, rest) => (c :: digits, rest)
    else none
  | [] => none

def sign : List Char → Bool × List Char
  | '-' :: cs => (true, cs)
  | '+' :: cs => (false, cs)
  | cs => (false, cs)

def wholeDigits : List Char → Option (List Char × List Char)
  | '0' :: cs => some (['0'], cs)
  | cs => someDigits Char.isDigit cs

def digitValue (c : Char) : Nat :=
  if c.isDigit then c.toNat - '0'.toNat
  else if 'a' ≤ c then c.toNat - 'a'.toNat + 10
  else c.toNat - 'A'.toNat + 10

def valueOf (base : Nat) (digits : List Char) : Nat :=
  digits.foldl (fun n c => n * base + digitValue c) 0

def fits (n : Int) : Bool := -9223372036854775808 ≤ n && n ≤ 9223372036854775807

def fitting (n : Int) (rest : List Char) : Option (Int × List Char) :=
  if fits n then some (n, rest) else none

def isHexDigit (c : Char) : Bool :=
  c.isDigit || ('a' ≤ c && c ≤ 'f') || ('A' ≤ c && c ≤ 'F')

def readBased (base : Nat) (isDigit : Char → Bool) (cs : List Char) : Option (Int × List Char) := do
  let (digits, rest) ← someDigits isDigit cs
  fitting (valueOf base digits) rest

def readInteger (cs : List Char) : Option (Int × List Char) :=
  match cs with
  | '0' :: 'x' :: cs => readBased 16 isHexDigit cs
  | '0' :: 'o' :: cs => readBased 8 (fun c => '0' ≤ c && c ≤ '7') cs
  | '0' :: 'b' :: cs => readBased 2 (fun c => c == '0' || c == '1') cs
  | cs => do
    let (negative, cs) := sign cs
    let (digits, rest) ← wholeDigits cs
    let n : Int := valueOf 10 digits
    fitting (if negative then -n else n) rest

def decimal? (cs : List Char) : Option Int :=
  let (negative, digits) := sign cs
  let n : Int := valueOf 10 digits
  if !digits.isEmpty && digits.all Char.isDigit && fits (if negative then -n else n) then
    some (if negative then -n else n)
  else none

def readExponent (cs : List Char) : Option (Int × List Char) := do
  let (negative, cs) := sign cs
  let (digits, rest) ← someDigits Char.isDigit cs
  let n : Int := valueOf 10 digits
  some (if negative then -n else n, rest)

def optionalExponent : List Char → Option (Int × List Char)
  | 'e' :: cs | 'E' :: cs => readExponent cs
  | cs => some (0, cs)

def finite (negative : Bool) (digits : List Char) (exponent : Int) (rest : List Char) :
    Option (Binary64 × List Char) :=
  let x := Binary64.nearest negative (valueOf 10 digits) exponent
  if x = Binary64.infinity false then none else some (x, rest)

/-- Reads a floating-point number, which has a fraction, an exponent or both, or is `inf` or
`nan`. -/
def readFloat (cs : List Char) : Option (Binary64 × List Char) := do
  let (negative, cs) := sign cs
  match cs with
  | 'i' :: 'n' :: 'f' :: rest => some (.infinity negative, rest)
  | 'n' :: 'a' :: 'n' :: rest => some (.nan, rest)
  | cs =>
    let (whole, cs) ← wholeDigits cs
    match cs with
    | '.' :: cs =>
      let (fraction, cs) ← someDigits Char.isDigit cs
      let (exponent, cs) ← optionalExponent cs
      finite negative (whole ++ fraction) (exponent - fraction.length) cs
    | 'e' :: cs | 'E' :: cs =>
      let (exponent, cs) ← readExponent cs
      finite negative whole exponent cs
    | _ => none

def positional (digits : Nat) (power : Int) : List Char :=
  let cs := Nat.toDigits 10 digits
  if 0 ≤ power then cs ++ List.replicate power.toNat '0' ++ ['.', '0']
  else
    let places := power.natAbs
    let cs := List.replicate (places + 1 - cs.length) '0' ++ cs
    cs.take (cs.length - places) ++ '.' :: cs.drop (cs.length - places)

/-- The text of a floating-point number: the shortest decimal that stands for it. -/
def floatText (x : Binary64) : String :=
  if x.isNaN then "nan"
  else
    let digits := if x.isInfinite then "inf".toList else
      let (digits, power) := x.magnitude.shortest
      positional digits power
    String.ofList (if x.isNegative then '-' :: digits else digits)

end CssModules.Toml
