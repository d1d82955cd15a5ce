namespace CssModules

/-- A JSON value. A string that holds half of a surrogate pair is no text, and is `none`. -/
inductive JsonValue where
  | null
  | bool (b : Bool)
  | number
  | string (text : Option (List Char))
  | array (items : List JsonValue)
  | object (members : List (Option (List Char) × JsonValue))

namespace JsonValue

def isBlank (c : Char) : Bool := c == ' ' || c == '\n' || c == '\t' || c == '\r'

def skip (cs : List Char) : List Char := cs.dropWhile isBlank

def hexValue? (c : Char) : Option Nat :=
  if c.isDigit then some (c.toNat - '0'.toNat)
  else if 'a' ≤ c ∧ c ≤ 'f' then some (c.toNat - 'a'.toNat + 10)
  else if 'A' ≤ c ∧ c ≤ 'F' then some (c.toNat - 'A'.toNat + 10)
  else none

def unit? (a b c d : Char) : Option Nat := do
  return (((← hexValue? a) * 16 + (← hexValue? b)) * 16 + (← hexValue? c)) * 16 + (← hexValue? d)

/-- A character of a string, or the unit of an escape that may be half of a pair. -/
inductive StringItem where
  | char (c : Char)
  | unit (n : Nat)

def stringItems : List Char → Option (List StringItem × List Char)
  | [] => none
  | '"' :: cs => some ([], cs)
  | '\\' :: 'u' :: a :: b :: c :: d :: cs => do
    let n ← unit? a b c d
    let (items, rest) ← stringItems cs
    some (.unit n :: items, rest)
  | '\\' :: c :: cs => do
    let e ← match c with
      | '"' => some '"'
      | '\\' => some '\\'
      | '/' => some '/'
      | 'b' => some '\x08'
      | 'f' => some '\x0c'
      | 'n' => some '\n'
      | 'r' => some '\r'
      | 't' => some '\t'
      | _ => none
    let (items, rest) ← stringItems cs
    some (.char e :: items, rest)
  | c :: cs =>
    if c.toNat < 0x20 then none
    else do
      let (items, rest) ← stringItems cs
      some (.char c :: items, rest)

/-- The text of a string's items, if every half of a surrogate pair has its other half. -/
def itemsText : List StringItem → Option (List Char)
  | [] => some []
  | .char c :: items => (c :: ·) <$> itemsText items
  | .unit n :: items =>
    if 0xD800 ≤ n ∧ n < 0xDC00 then
      match items with
      | .unit m :: items =>
        if 0xDC00 ≤ m ∧ m < 0xE000 then
          (Char.ofNat (0x10000 + (n - 0xD800) * 0x400 + (m - 0xDC00)) :: ·) <$> itemsText items
        else none
      | _ => none
    else if 0xDC00 ≤ n ∧ n < 0xE000 then none
    else (Char.ofNat n :: ·) <$> itemsText items

def readString (cs : List Char) : Option (Option (List Char) × List Char) :=
  (stringItems cs).map fun (items, rest) => (itemsText items, rest)

def digits (cs : List Char) : Option (List Char) :=
  if (cs.head?.any Char.isDigit) then some (cs.dropWhile Char.isDigit) else none

def readNumber (cs : List Char) : Option (List Char) := do
  let cs := match cs with
    | '-' :: cs => cs
    | cs => cs
  let cs ← match cs with
    | '0' :: cs => if (cs.head?.any Char.isDigit) then none else some cs
    | cs => digits cs
  let cs ← match cs with
    | '.' :: cs => digits cs
    | cs => some cs
  match cs with
  | 'e' :: '+' :: cs | 'e' :: '-' :: cs | 'E' :: '+' :: cs | 'E' :: '-' :: cs | 'e' :: cs
  | 'E' :: cs => digits cs
  | cs => some cs

def word (w : String) (cs : List Char) : Option (List Char) :=
  if w.toList.isPrefixOf cs then some (cs.drop w.length) else none

mutual

/-- Reads a value; every step takes a character, so that `fuel` need not exceed their number. -/
def value : (fuel : Nat) → List Char → Option (JsonValue × List Char)
  | 0, _ => none
  | fuel + 1, cs =>
    match skip cs with
    | 'n' :: cs => (.null, ·) <$> word "ull" cs
    | 't' :: cs => (.bool true, ·) <$> word "rue" cs
    | 'f' :: cs => (.bool false, ·) <$> word "alse" cs
    | '"' :: cs => (fun (s, rest) => (.string s, rest)) <$> readString cs
    | '[' :: cs =>
      match skip cs with
      | ']' :: cs => some (.array [], cs)
      | cs => (fun (items, rest) => (.array items, rest)) <$> elements fuel cs
    | '\x7b' :: cs =>
      match skip cs with
      | '\x7d' :: cs => some (.object [], cs)
      | cs => (fun (members, rest) => (.object members, rest)) <$> members fuel cs
    | cs => (.number, ·) <$> readNumber cs

def elements : (fuel : Nat) → List Char → Option (List JsonValue × List Char)
  | 0, _ => none
  | fuel + 1, cs => do
    let (v, cs) ← value fuel cs
    match skip cs with
    | ',' :: cs =>
      let (vs, cs) ← elements fuel cs
      some (v :: vs, cs)
    | ']' :: cs => some ([v], cs)
    | _ => none

def members : (fuel : Nat) → List Char → Option (List (Option (List Char) × JsonValue) × List Char)
  | 0, _ => none
  | fuel + 1, cs =>
    match skip cs with
    | '"' :: cs => do
      let (key, cs) ← readString cs
      match skip cs with
      | ':' :: cs =>
        let (v, cs) ← value fuel cs
        match skip cs with
        | ',' :: cs =>
          let (ms, cs) ← members fuel cs
          some ((key, v) :: ms, cs)
        | '\x7d' :: cs => some ([(key, v)], cs)
        | _ => none
      | _ => none
    | _ => none

end

def parse? (text : String) : Option JsonValue := do
  let cs := text.toList
  let (v, rest) ← value (2 * cs.length + 1) cs
  if (skip rest).isEmpty then some v else none

def hexPair (n : Nat) : List Char := [Nat.digitChar (n / 16), Nat.digitChar (n % 16)]

def quoteChar (c : Char) : List Char :=
  match c with
  | '"' => ['\\', '"']
  | '\\' => ['\\', '\\']
  | '\x08' => ['\\', 'b']
  | '\x0c' => ['\\', 'f']
  | '\n' => ['\\', 'n']
  | '\r' => ['\\', 'r']
  | '\t' => ['\\', 't']
  | c => if c.toNat < 0x20 then "\\u00".toList ++ hexPair c.toNat else [c]

def quote (text : String) : String :=
  "\"" ++ String.ofList (text.toList.flatMap quoteChar) ++ "\""

end JsonValue

end CssModules
