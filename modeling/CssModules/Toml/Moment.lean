namespace CssModules.Toml

/-- A day of the calendar. -/
structure Date where
  year : Nat
  month : Nat
  day : Nat
  deriving DecidableEq, Repr

/-- A time of day. -/
structure Time where
  hour : Nat
  minute : Nat
  second : Nat
  nanosecond : Nat
  deriving DecidableEq, Repr

/-- The distance of a local time from universal time, in minutes; `zulu` says that there is none. -/
inductive Offset where
  | zulu
  | minutes (n : Int)
  deriving DecidableEq, Repr

/-- A date, a time, or both. -/
inductive Moment where
  | date (d : Date)
  | time (t : Time)
  | both (d : Date) (t : Time) (offset : Option Offset)
  deriving DecidableEq, Repr

def decimalValue (digits : List Char) : Nat :=
  digits.foldl (fun n c => n * 10 + (c.toNat - '0'.toNat)) 0

def fixedDigits (count : Nat) (cs : List Char) : Option (Nat × List Char) :=
  let digits := cs.take count
  if digits.length = count ∧ digits.all Char.isDigit then some (decimalValue digits, cs.drop count)
  else none

def twoDigits (low high : Nat) (cs : List Char) : Option (Nat × List Char) := do
  let (n, rest) ← fixedDigits 2 cs
  if low ≤ n ∧ n ≤ high then some (n, rest) else none

def expect (c : Char) : List Char → Option (List Char)
  | d :: cs => if d = c then some cs else none
  | [] => none

def isLeapYear (year : Nat) : Bool := year % 4 == 0 && (year % 100 != 0 || year % 400 == 0)

def daysIn (year month : Nat) : Nat :=
  if month = 2 then if isLeapYear year then 29 else 28
  else if month = 4 ∨ month = 6 ∨ month = 9 ∨ month = 11 then 30
  else 31

def readDate (cs : List Char) : Option (Date × List Char) := do
  let (year, cs) ← fixedDigits 4 cs
  let (month, cs) ← twoDigits 1 12 (← expect '-' cs)
  let (day, cs) ← twoDigits 1 (daysIn year month) (← expect '-' cs)
  some (⟨year, month, day⟩, cs)

/-- The nanoseconds of a fraction of a second; what is smaller is cut off. -/
def nanoseconds (digits : List Char) : Nat :=
  decimalValue ((digits ++ List.replicate 9 '0').take 9)

def readTime (cs : List Char) : Option (Time × List Char) := do
  let (hour, cs) ← twoDigits 0 23 cs
  let (minute, cs) ← twoDigits 0 59 (← expect ':' cs)
  let (second, cs) ← twoDigits 0 60 (← expect ':' cs)
  match cs with
  | '.' :: cs =>
    let digits := cs.takeWhile Char.isDigit
    if digits.isEmpty then none
    else some (⟨hour, minute, second, nanoseconds digits⟩, cs.dropWhile Char.isDigit)
  | cs => some (⟨hour, minute, second, 0⟩, cs)

def readMinutes (cs : List Char) : Option (Nat × List Char) := do
  let (hours, cs) ← twoDigits 0 23 cs
  let (minutes, cs) ← twoDigits 0 59 (← expect ':' cs)
  some (60 * hours + minutes, cs)

def readOffset (cs : List Char) : Option Offset × List Char :=
  match cs with
  | 'Z' :: cs | 'z' :: cs => (some .zulu, cs)
  | '+' :: rest =>
    match readMinutes rest with
    | some (n, rest) => (some (.minutes n), rest)
    | none => (none, cs)
  | '-' :: rest =>
    match readMinutes rest with
    | some (n, rest) => (some (.minutes (-n)), rest)
    | none => (none, cs)
  | cs => (none, cs)

def isTimeMark (c : Char) : Bool := c == 'T' || c == 't' || c == ' '

def readMoment (cs : List Char) : Option (Moment × List Char) :=
  match readDate cs with
  | none => (readTime cs).map fun (t, rest) => (.time t, rest)
  | some (d, rest) =>
    match rest with
    | c :: behind =>
      if isTimeMark c then
        match readTime behind with
        | some (t, behind) =>
          let (offset, behind) := readOffset behind
          some (.both d t offset, behind)
        | none => some (.date d, rest)
      else some (.date d, rest)
    | [] => some (.date d, rest)

def padded (width n : Nat) : String :=
  let digits := Nat.toDigits 10 n
  String.ofList (List.replicate (width - digits.length) '0' ++ digits)

def Date.text (d : Date) : String :=
  padded 4 d.year ++ "-" ++ padded 2 d.month ++ "-" ++ padded 2 d.day

def dropZeros (digits : List Char) : List Char := (digits.reverse.dropWhile (· == '0')).reverse

def Time.text (t : Time) : String :=
  padded 2 t.hour ++ ":" ++ padded 2 t.minute ++ ":" ++ padded 2 t.second ++
    if t.nanosecond = 0 then ""
    else "." ++ String.ofList (dropZeros (padded 9 t.nanosecond).toList)

def Offset.text : Offset → String
  | .zulu => "Z"
  | .minutes n =>
    (if n < 0 then "-" else "+") ++ padded 2 (n.natAbs / 60) ++ ":" ++ padded 2 (n.natAbs % 60)

def Moment.text : Moment → String
  | .date d => d.text
  | .time t => t.text
  | .both d t offset => d.text ++ "T" ++ t.text ++ (offset.map Offset.text).getD ""

end CssModules.Toml
