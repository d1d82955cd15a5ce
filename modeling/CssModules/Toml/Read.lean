import CssModules.Toml.Draft
import CssModules.Toml.Number
import CssModules.Toml.Quoted

namespace CssModules.Toml

def unifyBreaks : List Char → List Char
  | '\r' :: '\n' :: cs => '\n' :: unifyBreaks cs
  | c :: cs => c :: unifyBreaks cs
  | [] => []

def skipBlanks (cs : List Char) : List Char := cs.dropWhile isBlank

def skipLines : (inComment : Bool) → List Char → Option (List Char)
  | false, '#' :: cs => skipLines true cs
  | false, c :: cs => if isBlank c || c == '\n' then skipLines false cs else some (c :: cs)
  | false, [] => some []
  | true, '\n' :: cs => skipLines false cs
  | true, c :: cs => if isControl c then none else skipLines true cs
  | true, [] => none

def endLine (cs : List Char) : Option (List Char) :=
  let rest := match skipBlanks cs with
    | '#' :: cs => cs.dropWhile fun c => !isControl c
    | cs => cs
  match rest with
  | [] => some []
  | '\n' :: cs => some cs
  | _ => none

def readKeyPart (cs : List Char) : Option (String × List Char) :=
  match cs with
  | '"' :: cs => (readBasic cs).map fun (text, rest) => (String.ofList text, rest)
  | '\'' :: cs => (readLiteral cs).map fun (text, rest) => (String.ofList text, rest)
  | cs =>
    let word := cs.takeWhile isKeyChar
    if word.isEmpty then none else some (String.ofList word, cs.dropWhile isKeyChar)

/-- Reads a key of at most so many parts with dots between them, and the blanks around it: the parts
before the last one, and the last one. -/
def readKey : (parts : Nat) → List Char → Option ((List String × String) × List Char)
  | 0, _ => none
  | parts + 1, cs => do
    let (key, cs) ← readKeyPart (skipBlanks cs)
    match skipBlanks cs with
    | '.' :: cs =>
      let ((path, last), cs) ← readKey parts cs
      some ((key :: path, last), cs)
    | cs => some (([], key), cs)

/-- Keys have fewer parts than this, and values are nested less deep. -/
def depthLimit : Nat := 80

def word (w : String) (cs : List Char) : Option (List Char) :=
  if w.toList.isPrefixOf cs then some (cs.drop w.length) else none

def readScalar (cs : List Char) : Option (Toml × List Char) :=
  match cs with
  | '"' :: _ | '\'' :: _ =>
    (readString cs).map fun (text, rest) => (.string (String.ofList text), rest)
  | 't' :: rest => (word "rue" rest).map (.boolean true, ·)
  | 'f' :: rest => (word "alse" rest).map (.boolean false, ·)
  | cs =>
    ((readMoment cs).map fun (m, rest) => (.moment m, rest)) <|>
      ((readFloat cs).map fun (x, rest) => (.float x, rest)) <|>
      ((readInteger cs).map fun (n, rest) => (.integer n, rest))

mutual

/-- Reads a value that is nested at most `room` levels deep. Every step takes a character, so that
`fuel` need not exceed twice their number. -/
def readValue : (fuel : Nat) → (room : Nat) → List Char → Option (Toml × List Char)
  | 0, _, _ => none
  | fuel + 1, room, cs =>
    match cs, room with
    | '[' :: cs, room + 1 =>
      (readItems fuel room cs).map fun (items, rest) => (.array items, rest)
    | '\x7b' :: cs, room + 1 =>
      match skipBlanks cs with
      | '\x7d' :: cs => some (.table [], cs)
      | cs =>
        (readPairs fuel room [] cs).map fun (entries, rest) =>
          (.table (Draft.finishEntries entries), rest)
    | cs, _ => readScalar cs

def readItems : (fuel : Nat) → (room : Nat) → List Char → Option (List Toml × List Char)
  | 0, _, _ => none
  | fuel + 1, room, cs => do
    match ← skipLines false cs with
    | ']' :: cs => some ([], cs)
    | cs =>
      let (v, cs) ← readValue fuel room cs
      match ← skipLines false cs with
      | ',' :: cs =>
        let (vs, cs) ← readItems fuel room cs
        some (v :: vs, cs)
      | ']' :: cs => some ([v], cs)
      | _ => none

/-- Reads the entries of a table in braces, behind those that are there already, and its closing
brace. -/
def readPairs : (fuel : Nat) → (room : Nat) → Draft.Entries → List Char →
    Option (Draft.Entries × List Char)
  | 0, _, _, _ => none
  | fuel + 1, room, entries, cs => do
    let ((path, key), cs) ← readKey (depthLimit - 1) cs
    let (v, cs) ← readValue fuel room (skipBlanks (← expect '=' cs))
    let entries ← Draft.setDotted path key v .own entries
    match skipBlanks cs with
    | ',' :: cs => readPairs fuel room entries cs
    | '\x7d' :: cs => some (entries, cs)
    | _ => none

end

/-- What has been read of a document: the header of the table that lines belong to, and all
tables. -/
structure Reading where
  header : List String
  root : Draft.Entries

def readHeader (s : Reading) (cs : List Char) : Option (Reading × List Char) :=
  match cs with
  | '[' :: cs => do
    let ((path, key), cs) ← readKey (depthLimit - 1) cs
    let rest ← endLine (← expect ']' (← expect ']' cs))
    some (⟨path ++ [key], ← Draft.beginItem path key s.root⟩, rest)
  | cs => do
    let ((path, key), cs) ← readKey (depthLimit - 1) cs
    let rest ← endLine (← expect ']' cs)
    some (⟨path ++ [key], ← Draft.beginTable path key s.root⟩, rest)

def readEntry (s : Reading) (cs : List Char) : Option (Reading × List Char) := do
  let ((path, key), cs) ← readKey (depthLimit - 1) cs
  let (v, cs) ← readValue (2 * cs.length + 1) (depthLimit - 1) (skipBlanks (← expect '=' cs))
  let rest ← endLine cs
  some ({ s with root := ← Draft.set s.header path key v s.root }, rest)

/-- Reads the lines of a document; each takes a character, so that `fuel` need not exceed their
number. -/
def readLines : (fuel : Nat) → Reading → List Char → Option Draft.Entries
  | 0, _, _ => none
  | fuel + 1, s, cs =>
    match skipBlanks cs with
    | [] => some s.root
    | '\n' :: cs => readLines fuel s cs
    | '#' :: cs => do readLines fuel s (← endLine ('#' :: cs))
    | '[' :: cs => do
      let (s, cs) ← readHeader s cs
      readLines fuel s cs
    | cs => do
      let (s, cs) ← readEntry s cs
      readLines fuel s cs

/-- The table that a document describes, if it is well-formed; a byte order mark before it counts for
nothing. -/
def parse? (text : String) : Option Table :=
  let cs := unifyBreaks (match text.toList with
    | '\ufeff' :: cs => cs
    | cs => cs)
  (readLines (cs.length + 1) ⟨[], []⟩ cs).map Draft.finishEntries

end CssModules.Toml
