namespace CssModules.Toml

def isControl (c : Char) : Bool := (c.toNat < 0x20 && c != '\t') || c == '\x7f'

def hexDigit? (c : Char) : Option Nat :=
  if c.isDigit then some (c.toNat - '0'.toNat)
  else if 'a' ≤ c ∧ c ≤ 'f' then some (c.toNat - 'a'.toNat + 10)
  else if 'A' ≤ c ∧ c ≤ 'F' then some (c.toNat - 'A'.toNat + 10)
  else none

def charOf? (n : Nat) : Option Char := if n.isValidChar then some (Char.ofNat n) else none

def scalar? (digits : List Char) : Option Char := do
  charOf? ((← digits.mapM hexDigit?).foldl (fun n d => n * 16 + d) 0)

def escaped? : Char → Option Char
  | 'b' => some '\x08'
  | 't' => some '\t'
  | 'n' => some '\n'
  | 'f' => some '\x0c'
  | 'r' => some '\r'
  | '"' => some '"'
  | '\\' => some '\\'
  | _ => none

def pushed (c : Char) : Option (List Char × List Char) → Option (List Char × List Char) :=
  Option.map fun (text, rest) => (c :: text, rest)

def readBasic : List Char → Option (List Char × List Char)
  | [] => none
  | '"' :: cs => some ([], cs)
  | '\\' :: 'u' :: a :: b :: c :: d :: cs => do
    pushed (← scalar? [a, b, c, d]) (readBasic cs)
  | '\\' :: 'U' :: a :: b :: c :: d :: e :: f :: g :: h :: cs => do
    pushed (← scalar? [a, b, c, d, e, f, g, h]) (readBasic cs)
  | '\\' :: c :: cs => do pushed (← escaped? c) (readBasic cs)
  | c :: cs => if isControl c then none else pushed c (readBasic cs)

def readLiteral : List Char → Option (List Char × List Char)
  | [] => none
  | '\'' :: cs => some ([], cs)
  | c :: cs => if isControl c then none else pushed c (readLiteral cs)

def isBlank (c : Char) : Bool := c == ' ' || c == '\t'

def endsLine (cs : List Char) : Bool := (cs.dropWhile isBlank).head? == some '\n'

/-- Reads a basic string of several lines behind its opening quotes. Up to two quotes before the
closing ones belong to the text, and a backslash at the end of a line hides all blanks and line
breaks up to the next character; `skipping` says that it still does. -/
def readBasicLines : (skipping : Bool) → List Char → Option (List Char × List Char)
  | _, [] => none
  | true, ' ' :: cs | true, '\t' :: cs | true, '\n' :: cs => readBasicLines true cs
  | _, '"' :: '"' :: '"' :: '"' :: '"' :: cs => some (['"', '"'], cs)
  | _, '"' :: '"' :: '"' :: '"' :: cs => some (['"'], cs)
  | _, '"' :: '"' :: '"' :: cs => some ([], cs)
  | _, '\\' :: 'u' :: a :: b :: c :: d :: cs => do
    pushed (← scalar? [a, b, c, d]) (readBasicLines false cs)
  | _, '\\' :: 'U' :: a :: b :: c :: d :: e :: f :: g :: h :: cs => do
    pushed (← scalar? [a, b, c, d, e, f, g, h]) (readBasicLines false cs)
  | _, '\\' :: c :: cs =>
    if endsLine (c :: cs) then readBasicLines true cs
    else do pushed (← escaped? c) (readBasicLines false cs)
  | _, c :: cs =>
    if isControl c && c != '\n' then none else pushed c (readBasicLines false cs)

def readLiteralLines : List Char → Option (List Char × List Char)
  | [] => none
  | '\'' :: '\'' :: '\'' :: '\'' :: '\'' :: cs => some (['\'', '\''], cs)
  | '\'' :: '\'' :: '\'' :: '\'' :: cs => some (['\''], cs)
  | '\'' :: '\'' :: '\'' :: cs => some ([], cs)
  | c :: cs => if isControl c && c != '\n' then none else pushed c (readLiteralLines cs)

def dropBreak : List Char → List Char
  | '\n' :: cs => cs
  | cs => cs

def readString : List Char → Option (List Char × List Char)
  | '"' :: '"' :: '"' :: cs => readBasicLines false (dropBreak cs)
  | '"' :: cs => readBasic cs
  | '\'' :: '\'' :: '\'' :: cs => readLiteralLines (dropBreak cs)
  | '\'' :: cs => readLiteral cs
  | _ => none

/-- The length of the longest run of a character, given the length of the one that the text may go
on with. -/
def longestRun (c : Char) : (current : Nat) → List Char → Nat
  | current, [] => current
  | current, d :: cs =>
    if d = c then longestRun c (current + 1) cs else max current (longestRun c 0 cs)

/-- What decides on the form of a text. -/
structure Traits where
  hasControl : Bool
  hasBackslash : Bool
  hasBreak : Bool
  quotes : Nat
  apostrophes : Nat

def traits (cs : List Char) : Traits where
  hasControl := cs.any fun c => isControl c && c != '\n'
  hasBackslash := cs.contains '\\'
  hasBreak := cs.contains '\n'
  quotes := longestRun '"' 0 cs
  apostrophes := longestRun '\'' 0 cs

/-- How a text is written. -/
inductive Form where
  | basic
  | literal
  | basicLines
  | literalLines
  deriving DecidableEq, Repr

/-- The first form that fits: as it is between single quotes of either kind, then between triple
ones, and with escapes if nothing else does. -/
def Traits.form (t : Traits) : Form :=
  if !t.hasControl && !t.hasBackslash && t.quotes == 0 && !t.hasBreak then .basic
  else if !t.hasControl && t.apostrophes == 0 && !t.hasBreak then .literal
  else if !t.hasControl && !t.hasBackslash && t.quotes ≤ 2 then .basicLines
  else if !t.hasControl && t.apostrophes ≤ 2 then .literalLines
  else if t.hasBreak then .basicLines
  else .basic

def Traits.keyForm (t : Traits) : Form :=
  if !t.hasControl && !t.hasBreak && !t.hasBackslash && t.quotes == 0 then .basic
  else if !t.hasControl && !t.hasBreak && t.apostrophes == 0 then .literal
  else .basic

def hexChar (n : Nat) : Char := if n < 10 then Char.ofNat (48 + n) else Char.ofNat (55 + n)

def escape (oneLine : Bool) (c : Char) : List Char :=
  match c with
  | '\x08' => ['\\', 'b']
  | '\t' => ['\\', 't']
  | '\x0c' => ['\\', 'f']
  | '\r' => ['\\', 'r']
  | '\\' => ['\\', '\\']
  | '\n' => if oneLine then ['\\', 'n'] else ['\n']
  | c =>
    if isControl c then
      ['\\', 'u', '0', '0', hexChar (c.toNat / 16), hexChar (c.toNat % 16)]
    else [c]

def escapeLine (cs : List Char) : List Char :=
  cs.flatMap fun c => if c = '"' then ['\\', '"'] else escape true c

/-- A text between triple quotes: every third quote of a run is escaped. -/
def escapeLines : (quotes : Nat) → List Char → List Char
  | _, [] => []
  | quotes, '"' :: cs =>
    if 2 ≤ quotes then '\\' :: '"' :: escapeLines 0 cs else '"' :: escapeLines (quotes + 1) cs
  | _, c :: cs => escape false c ++ escapeLines 0 cs

def leadBreak (cs : List Char) : List Char := if cs.contains '\n' then ['\n'] else []

def Form.write (form : Form) (cs : List Char) : List Char :=
  match form with
  | .basic => '"' :: escapeLine cs ++ ['"']
  | .literal => '\'' :: cs ++ ['\'']
  | .basicLines => "\"\"\"".toList ++ leadBreak cs ++ escapeLines 0 cs ++ "\"\"\"".toList
  | .literalLines => "'''".toList ++ leadBreak cs ++ cs ++ "'''".toList

def writeString (cs : List Char) : List Char := (traits cs).form.write cs

def isKeyChar (c : Char) : Bool := c.isAlphanum || c == '_' || c == '-'

def writeKey (cs : List Char) : List Char :=
  if !cs.isEmpty && cs.all isKeyChar then cs else (traits cs).keyForm.write cs

end CssModules.Toml
