namespace CssModules.Identifier

def isLayout (c : Char) : Bool :=
  c == '\t' || c == '\n' || c == '\x0b' || c == '\x0c' || c == '\r'

def isPunctuation (c : Char) : Bool :=
  (' ' ≤ c && c ≤ ',') || c == '.' || c == '/' || (':' ≤ c && c ≤ '@') || c == '[' || c == '\\' ||
    c == ']' || c == '^' || c == '`' || ('\x7b' ≤ c && c ≤ '~')

def hexValue? (c : Char) : Option Nat :=
  if '0' ≤ c && c ≤ '9' then some (c.toNat - '0'.toNat)
  else if 'a' ≤ c && c ≤ 'f' then some (c.toNat - 'a'.toNat + 10)
  else if 'A' ≤ c && c ≤ 'F' then some (c.toNat - 'A'.toNat + 10)
  else none

def isUpperHex (c : Char) : Bool := ('0' ≤ c && c ≤ '9') || ('A' ≤ c && c ≤ 'F')

def escapeChar (c : Char) : List Char :=
  if isLayout c then '\\' :: (Nat.toDigits 16 c.toNat).map Char.toUpper ++ [' ']
  else if isPunctuation c then ['\\', c]
  else [c]

/-- The escaped characters of a text, the first ones spelled so that no number starts there. -/
def escapeGuarded : List Char → List Char
  | [] => []
  | '-' :: c :: cs =>
    if c.isDigit || c == '-' then '\\' :: '-' :: (c :: cs).flatMap escapeChar
    else ('-' :: c :: cs).flatMap escapeChar
  | c :: cs =>
    if c.isDigit then '\\' :: '3' :: c :: ' ' :: cs.flatMap escapeChar
    else (c :: cs).flatMap escapeChar

/-- Drops the space that ends a hex escape where the next character cannot be taken for a part of
the escape. `slashes` backslashes and then `digits` upper-case hex digits stand directly before the
text that is left. -/
def dropTerminators (slashes digits : Nat) : List Char → List Char
  | [] => []
  | c :: cs =>
    if c = '\\' then c :: dropTerminators (if digits = 0 then slashes + 1 else 1) 0 cs
    else if slashes ≠ 0 ∧ isUpperHex c ∧ digits < 7 then c :: dropTerminators slashes (digits + 1) cs
    else if slashes ≠ 0 ∧ c = ' ' ∧ 1 ≤ digits ∧ digits ≤ 6 then
      let ambiguous := match cs with
        | [] => false
        | d :: _ => (hexValue? d).isSome || d == ' '
      if ambiguous || slashes % 2 == 0 then c :: dropTerminators 0 0 cs
      else dropTerminators 0 0 cs
    else c :: dropTerminators 0 0 cs

/-- Drops every space that only ends a hex escape and that nothing after the escape needs. -/
def stripRedundantSpaces (text : String) : String :=
  String.ofList (dropTerminators 0 0 text.toList)

def escape (raw : String) : String :=
  stripRedundantSpaces (String.ofList (escapeGuarded raw.toList))

/-- The character of a hex escape; values that are no character read as U+FFFD. -/
def decodedChar (value : Nat) : Char :=
  if h : value.isValidChar ∧ value ≠ 0 then Char.ofNatAux value h.1 else '\uFFFD'

/-- Where reading an escaped spelling stands: between characters, or behind a backslash and as many
hex digits of the value so far. -/
inductive Reading where
  | between
  | escape (digits value : Nat)
  deriving DecidableEq, Repr

/-- Reads escapes back, permissively: a backslash that starts no hex escape stands for the next
character, and for itself at the end. -/
def unescapeFrom : Reading → List Char → List Char
  | .between, [] => []
  | .between, c :: cs =>
    if c = '\\' then unescapeFrom (.escape 0 0) cs else c :: unescapeFrom .between cs
  | .escape digits value, [] => if digits = 0 then ['\\'] else [decodedChar value]
  | .escape digits value, c :: cs =>
    match hexValue? c with
    | some d =>
      if digits < 6 then unescapeFrom (.escape (digits + 1) (16 * value + d)) cs
      else decodedChar value :: c :: unescapeFrom .between cs
    | none =>
      if digits = 0 then c :: unescapeFrom .between cs
      else if c = ' ' then decodedChar value :: unescapeFrom .between cs
      else if c = '\\' then decodedChar value :: unescapeFrom (.escape 0 0) cs
      else decodedChar value :: c :: unescapeFrom .between cs

def unescape (raw : String) : String :=
  String.ofList (unescapeFrom .between raw.toList)

/-- Characters that file systems reserve and that generated names avoid. -/
def isReserved (c : Char) : Bool :=
  c == '"' || c == '*' || c == '/' || c == ':' || c == '<' || c == '>' || c == '?' || c == '\\' ||
    c == '|'

def isControl (c : Char) : Bool :=
  c.toNat ≤ 0x1F || (0x80 ≤ c.toNat && c.toNat ≤ 0x9F)

def needsGuard : List Char → Bool
  | '-' :: c :: _ => c.isDigit || c == '-'
  | c :: _ => c.isDigit
  | [] => false

/-- A generated name with every dot, reserved and control character replaced by a dash, and with
`_` in front if it would start like a number or with two dashes. -/
def normalizeLocal (raw : String) : String :=
  let cs := raw.toList
  let normal := cs.map fun c => if isReserved c || isControl c || c == '.' then '-' else c
  String.ofList (if needsGuard cs then '_' :: normal else normal)

def escapeLocal (raw : String) : String := escape (normalizeLocal raw)

end CssModules.Identifier
