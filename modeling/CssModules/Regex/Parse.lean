import CssModules.Regex.Program

namespace CssModules.Regex

/-- The switches that change how an expression is read. -/
structure Flags where
  anyCase : Bool
  multiLine : Bool
  dotAll : Bool
  swapGreed : Bool
  ignoreSpace : Bool
  deriving DecidableEq, Repr

def Flags.none : Flags := ⟨false, false, false, false, false⟩

/-- The flags with one letter's switch set. Letters whose switch means nothing here are known too. -/
def Flags.set? (f : Flags) (letter : Char) (on : Bool) : Option Flags :=
  match letter with
  | 'i' => some { f with anyCase := on }
  | 'm' => some { f with multiLine := on }
  | 's' => some { f with dotAll := on }
  | 'U' => some { f with swapGreed := on }
  | 'x' => some { f with ignoreSpace := on }
  | 'u' | 'R' => some f
  | _ => Option.none

/-- What is left behind layout and comments, if those are ignored. `comment` says whether the text
starts inside a comment. -/
def skipLayout : (comment : Bool) → List Char → List Char
  | _, [] => []
  | true, c :: cs => skipLayout (c != '\n') cs
  | false, c :: cs =>
    if Text.isSpace c then skipLayout false cs
    else if c = '#' then skipLayout true cs
    else c :: cs

def Flags.skip (f : Flags) (cs : List Char) : List Char :=
  if f.ignoreSpace then skipLayout false cs else cs

/-- What an escape stands for. -/
inductive Escaped where
  | literal (c : Char)
  | set (s : CharSet)
  | look (l : Look)

def hexNumber? (digits : List Char) : Option Nat :=
  if digits.isEmpty then none
  else digits.foldlM (fun n c =>
    if c.isDigit then some (16 * n + (c.toNat - '0'.toNat))
    else if 'a' ≤ c.toLower ∧ c.toLower ≤ 'f' then
      some (16 * n + (c.toLower.toNat - 'a'.toNat + 10))
    else none) 0

def hexChar? (digits : List Char) : Option Char := do
  let n ← hexNumber? digits
  if h : n.isValidChar then some (Char.ofNatAux n h) else none

def hexEscape (width : Nat) : List Char → Option (Escaped × List Char)
  | '\x7b' :: cs =>
    match cs.dropWhile (· != '\x7d') with
    | _ :: rest => (fun c => (.literal c, rest)) <$> hexChar? (cs.takeWhile (· != '\x7d'))
    | [] => none
  | cs =>
    if cs.length < width then none
    else (fun c => (.literal c, cs.drop width)) <$> hexChar? (cs.take width)

/-- The set that a letter stands for: digits, white space or word characters, in upper case
everything else. -/
def letterSet? (c : Char) : Option CharSet :=
  match c with
  | 'd' => some (.ranges digitRanges)
  | 's' => some .space
  | 'w' => some (.ranges wordRanges)
  | 'D' => some (.complement (.ranges digitRanges))
  | 'S' => some (.complement .space)
  | 'W' => some (.complement (.ranges wordRanges))
  | _ => none

def boundary (cs : List Char) : Option (Escaped × List Char) :=
  match cs with
  | '\x7b' :: rest =>
    let word := String.ofList (rest.takeWhile (· != '\x7d'))
    let after := (rest.dropWhile (· != '\x7d')).drop 1
    match word with
    | "start" => some (.look .wordStart, after)
    | "end" => some (.look .wordEnd, after)
    | "start-half" => some (.look .wordStartHalf, after)
    | "end-half" => some (.look .wordEndHalf, after)
    | _ => if (rest.head?.any fun c => c.isAlpha || c == '-') then none
      else some (.look .wordBoundary, cs)
  | _ => some (.look .wordBoundary, cs)

def escape (f : Flags) : List Char → Option (Escaped × List Char)
  | [] => none
  | c :: cs =>
    match letterSet? c with
    | some s => some (.set s, cs)
    | none =>
      match c with
      | 'x' => hexEscape 2 cs
      | 'u' => hexEscape 4 cs
      | 'U' => hexEscape 8 cs
      | 'a' => some (.literal '\x07', cs)
      | 'f' => some (.literal '\x0c', cs)
      | 't' => some (.literal '\t', cs)
      | 'n' => some (.literal '\n', cs)
      | 'r' => some (.literal '\r', cs)
      | 'v' => some (.literal '\x0b', cs)
      | 'A' => some (.look .startText, cs)
      | 'z' => some (.look .endText, cs)
      | 'B' => some (.look .notWordBoundary, cs)
      | 'b' => boundary (f.skip cs)
      | '<' => some (.look .wordStart, cs)
      | '>' => some (.look .wordEnd, cs)
      | _ => if c.toNat < 128 && !c.isAlphanum then some (.literal c, cs) else none

def namedSet? (name : String) : Option Ranges :=
  match name with
  | "alnum" => some [(48, 57), (65, 90), (97, 122)]
  | "alpha" => some [(65, 90), (97, 122)]
  | "ascii" => some [(0, 127)]
  | "blank" => some [(9, 9), (32, 32)]
  | "cntrl" => some [(0, 31), (127, 127)]
  | "digit" => some [(48, 57)]
  | "graph" => some [(33, 126)]
  | "lower" => some [(97, 122)]
  | "print" => some [(32, 126)]
  | "punct" => some [(33, 47), (58, 64), (91, 96), (123, 126)]
  | "space" => some [(9, 13), (32, 32)]
  | "upper" => some [(65, 90)]
  | "word" => some [(48, 57), (65, 90), (95, 95), (97, 122)]
  | "xdigit" => some [(48, 57), (65, 70), (97, 102)]
  | _ => none

def namedClass : List Char → Option (CharSet × List Char)
  | ':' :: cs =>
    let (negated, cs) := match cs with
      | '^' :: cs => (true, cs)
      | cs => (false, cs)
    match cs.dropWhile (· != ':') with
    | ':' :: ']' :: rest =>
      (namedSet? (String.ofList (cs.takeWhile (· != ':')))).map fun rs =>
        (if negated then .complement (.ranges rs) else .ranges rs, rest)
    | _ => none
  | _ => none

/-- An open bracket: whether it is negated, what has been combined already and how, and the items
since. -/
structure Bracket where
  negated : Bool
  combined : Option ((CharSet → CharSet → CharSet) × CharSet)
  items : CharSet

def Flags.fold (f : Flags) (s : CharSet) : CharSet := if f.anyCase then .anyCase s else s

def Bracket.value (b : Bracket) (f : Flags) : CharSet :=
  match b.combined with
  | some (op, s) => op (f.fold s) (f.fold b.items)
  | none => b.items

def Bracket.close (b : Bracket) (f : Flags) : CharSet :=
  let s := f.fold (b.value f)
  if b.negated then .complement s else s

def Bracket.add (b : Bracket) (s : CharSet) : Bracket := { b with items := .union b.items s }

def leadingDashes (f : Flags) : List Char → CharSet × List Char
  | '-' :: cs =>
    let (s, rest) := leadingDashes f cs
    (.union (.single '-') s, rest)
  | cs => (.empty, f.skip cs)

def openBracket (f : Flags) (cs : List Char) : Bracket × List Char :=
  let (negated, cs) := match f.skip cs with
    | '^' :: cs => (true, f.skip cs)
    | cs => (false, cs)
  match cs with
  | ']' :: cs => (⟨negated, none, .single ']'⟩, cs)
  | cs =>
    let (items, cs) := leadingDashes f cs
    (⟨negated, none, items⟩, cs)

def bracketItem (f : Flags) : List Char → Option (Escaped × List Char)
  | [] => none
  | '\\' :: cs => escape f cs
  | c :: cs => some (.literal c, cs)

def bracketRange (f : Flags) (cs : List Char) : Option (CharSet × List Char) := do
  let (first, cs) ← bracketItem f cs
  let cs := f.skip cs
  let isRange := match cs with
    | '-' :: rest => match f.skip rest with
      | [] => true
      | d :: _ => d != ']' && d != '-'
    | _ => false
  if isRange then
    let (last, cs) ← bracketItem f (f.skip (cs.drop 1))
    match first, last with
    | .literal a, .literal b => if a ≤ b then some (.ranges [(a.toNat, b.toNat)], cs) else none
    | _, _ => none
  else match first with
    | .literal c => if cs.isEmpty then none else some (.single c, cs)
    | .set s => some (s, cs)
    | .look _ => none

def bracketFrom (f : Flags) : (fuel : Nat) → Bracket → List Bracket → List Char →
    Option (CharSet × List Char)
  | 0, _, _, _ => none
  | fuel + 1, b, outer, cs =>
    let combine (op : CharSet → CharSet → CharSet) (rest : List Char) :=
      bracketFrom f fuel ⟨b.negated, some (op, b.value f), .empty⟩ outer rest
    match f.skip cs with
    | [] => none
    | '[' :: rest =>
      match namedClass rest with
      | some (s, rest) => bracketFrom f fuel (b.add s) outer rest
      | none =>
        let (inner, rest) := openBracket f rest
        bracketFrom f fuel inner (b :: outer) rest
    | ']' :: rest =>
      match outer with
      | [] => some (b.close f, rest)
      | parent :: outer => bracketFrom f fuel (parent.add (b.close f)) outer rest
    | '&' :: '&' :: rest => combine .intersection rest
    | '-' :: '-' :: rest => combine .difference rest
    | '~' :: '~' :: rest => combine .symmetricDifference rest
    | cs => do
      let (s, rest) ← bracketRange f cs
      bracketFrom f fuel (b.add s) outer rest

/-- An open group: the flags outside it, its number if it captures, and what stands before it. -/
structure Frame where
  flags : Flags
  index : Option Nat
  alternatives : List Expr
  items : List (Option Expr)

/-- Where reading stands: the flags, the number of the next group, the names so far, and the open
group's alternatives and items, last ones first. An item that only sets flags is `none`. -/
structure Reading where
  flags : Flags
  nextIndex : Nat
  names : List (List Char)
  alternatives : List Expr
  items : List (Option Expr)
  frames : List Frame

def sequence (items : List (Option Expr)) : Expr :=
  match items.filterMap id with
  | [] => .empty
  | e :: es => es.foldl (fun after before => .concat before after) e

def Reading.value (r : Reading) : Expr :=
  r.alternatives.foldl (fun after before => .alternate before after) (sequence r.items)

def Reading.push (r : Reading) (e : Expr) : Reading := { r with items := some e :: r.items }

def countFrom (cs : List Char) : Option (Nat × List Char) :=
  let cs := cs.dropWhile Text.isSpace
  let digits := cs.takeWhile Char.isDigit
  let n := digits.foldl (fun n c => 10 * n + (c.toNat - '0'.toNat)) 0
  if digits.isEmpty ∨ Nat.pow 2 32 ≤ n then none
  else some (n, (cs.dropWhile Char.isDigit).dropWhile Text.isSpace)

def bounds (f : Flags) (cs : List Char) : Option ((Nat × Option Nat) × List Char) := do
  let (least, cs) ← countFrom cs
  match cs with
  | ',' :: cs =>
    match f.skip cs with
    | '\x7d' :: cs => some ((least, none), cs)
    | cs =>
      let (most, cs) ← countFrom cs
      match cs with
      | '\x7d' :: cs => if least ≤ most then some ((least, some most), cs) else none
      | _ => none
  | '\x7d' :: cs => some ((least, some least), cs)
  | _ => none

/-- Repeats the last item; a `?` behind the repetition turns its greed. -/
def Reading.repeatLast (r : Reading) (least : Nat) (most : Option Nat) (cs : List Char) :
    Option (Reading × List Char) :=
  let (lazy, cs) := match r.flags.skip cs with
    | '?' :: rest => (true, rest)
    | _ => (false, cs)
  match r.items with
  | some e :: items =>
    some ({ r with items := some (e.times least most (lazy == r.flags.swapGreed)) :: items }, cs)
  | _ => none

def flagsFrom (f : Flags) (seen : List Char) (negated : Bool) : List Char →
    Option (Flags × Char × List Char)
  | [] => none
  | c :: cs =>
    if c = ':' ∨ c = ')' then
      if seen.head? = some '-' ∨ (c = ')' ∧ seen.isEmpty) then none else some (f, c, cs)
    else if seen.contains c then none
    else if c = '-' then flagsFrom f ('-' :: seen) true cs
    else match f.set? c (!negated) with
      | some f => flagsFrom f (c :: seen) negated cs
      | none => none

def isGroupName (name : List Char) : Bool :=
  match name with
  | [] => false
  | c :: cs => (c == '_' || (isWord c && !isDecimal c)) &&
    cs.all fun c => isWord c || c == '.' || c == '[' || c == ']'

def Reading.enter (r : Reading) (flags : Flags) (index : Option Nat) : Reading :=
  { r with
    flags := flags
    alternatives := []
    items := []
    frames := ⟨r.flags, index, r.alternatives, r.items⟩ :: r.frames }

def Reading.capture (r : Reading) : Reading :=
  { r.enter r.flags (some r.nextIndex) with nextIndex := r.nextIndex + 1 }

def Reading.named (r : Reading) (cs : List Char) : Option (Reading × List Char) :=
  let name := cs.takeWhile (· != '>')
  match cs.dropWhile (· != '>') with
  | _ :: rest =>
    if isGroupName name && !r.names.contains name then
      some ({ r.capture with names := name :: r.names }, rest)
    else none
  | [] => none

def Reading.group (r : Reading) (cs : List Char) : Option (Reading × List Char) :=
  match r.flags.skip cs with
  | '?' :: '=' :: _ | '?' :: '!' :: _ | '?' :: '<' :: '=' :: _ | '?' :: '<' :: '!' :: _ => none
  | '?' :: 'P' :: '<' :: cs | '?' :: '<' :: cs => r.named cs
  | '?' :: cs => do
    let (flags, last, cs) ← flagsFrom r.flags [] false cs
    if last = ':' then some (r.enter flags none, cs)
    else some ({ r with flags := flags, items := none :: r.items }, cs)
  | cs => some (r.capture, cs)

def Reading.close (r : Reading) : Option Reading :=
  match r.frames with
  | [] => none
  | frame :: frames =>
    let e := match frame.index with
      | some i => .group i r.value
      | none => r.value
    some { r with
      flags := frame.flags
      alternatives := frame.alternatives
      items := some e :: frame.items
      frames := frames }

def Flags.exprOf (f : Flags) : Escaped → Expr
  | .literal c => .set (f.fold (.single c))
  | .set s => .set s
  | .look l => .look l

def Reading.step (r : Reading) : List Char → Option (Reading × List Char)
  | [] => none
  | c :: cs =>
    match c with
    | '(' => r.group cs
    | ')' => (·, cs) <$> r.close
    | '|' => some ({ r with alternatives := sequence r.items :: r.alternatives, items := [] }, cs)
    | '[' => do
      let (b, rest) := openBracket r.flags cs
      let (s, rest) ← bracketFrom r.flags (cs.length + 1) b [] rest
      some (r.push (.set s), rest)
    | '?' => r.repeatLast 0 (some 1) cs
    | '*' => r.repeatLast 0 none cs
    | '+' => r.repeatLast 1 none cs
    | '\x7b' => do
      let ((least, most), rest) ← bounds r.flags cs
      r.repeatLast least most rest
    | '\\' => do
      let (e, rest) ← escape r.flags cs
      some (r.push (r.flags.exprOf e), rest)
    | '.' =>
      some (r.push (.set (.complement
        (if r.flags.dotAll then .empty else .single '\n'))), cs)
    | '^' => some (r.push (.look (if r.flags.multiLine then .startLine else .startText)), cs)
    | '$' => some (r.push (.look (if r.flags.multiLine then .endLine else .endText)), cs)
    | c => some (r.push (.set (r.flags.fold (.single c))), cs)

def Reading.finish : (fuel : Nat) → Reading → List Char → Option Expr
  | 0, _, _ => none
  | fuel + 1, r, cs =>
    match r.flags.skip cs with
    | [] => if r.frames.isEmpty then some r.value else none
    | cs => do
      let (r, cs) ← r.step cs
      finish fuel r cs

/-- The most instructions that an expression may make. -/
def sizeLimit : Nat := 327680

def Expr.parse? (pattern : String) : Option Expr := do
  let cs := pattern.toList
  let e ← Reading.finish (cs.length + 1) ⟨.none, 1, [], [], [], []⟩ cs
  if e.size ≤ sizeLimit then some e else none

def Matcher.parse? (pattern : String) : Option Matcher := (Expr.parse? pattern).map Matcher.ofExpr

end CssModules.Regex
