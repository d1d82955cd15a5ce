import CssModules.Identifier.Escape

namespace CssModules.Selector

def isNameChar (c : Char) : Bool := c.isAlphanum || c == '-' || c == '_' || 128 ≤ c.toNat

/-- What reading a name is inside of: nothing, or an escape with some hex digits so far. -/
inductive NameMode where
  | between
  | escape (digits : Nat)
  deriving DecidableEq, Repr

/-- The name that a text starts with, escapes kept as written, and the text behind it. -/
def nameFrom : NameMode → List Char → List Char × List Char
  | _, [] => ([], [])
  | .between, c :: cs =>
    if c = '\\' then
      let (name, rest) := nameFrom (.escape 0) cs
      (c :: name, rest)
    else if isNameChar c then
      let (name, rest) := nameFrom .between cs
      (c :: name, rest)
    else ([], c :: cs)
  | .escape digits, c :: cs =>
    if digits < 6 ∧ (Identifier.hexValue? c).isSome then
      let (name, rest) := nameFrom (.escape (digits + 1)) cs
      (c :: name, rest)
    else if digits = 0 ∨ c = ' ' ∨ (isNameChar c ∧ c ≠ '\\') then
      let (name, rest) := nameFrom .between cs
      (c :: name, rest)
    else if c = '\\' then
      let (name, rest) := nameFrom (.escape 0) cs
      (c :: name, rest)
    else ([], c :: cs)

/-- Whether a name can be that of a class: it does not start like a number, and is no lone dash. -/
def isClassName : List Char → Bool
  | [] => false
  | ['-'] => false
  | '-' :: c :: _ => !c.isDigit
  | c :: _ => !c.isDigit

def skipParens : (depth : Nat) → List Char → List Char
  | _, [] => []
  | depth, c :: cs =>
    if c = '(' then skipParens (depth + 1) cs
    else if c = ')' then if depth ≤ 1 then cs else skipParens (depth - 1) cs
    else skipParens depth cs

theorem length_nameFrom (m : NameMode) (cs : List Char) :
    (nameFrom m cs).2.length ≤ cs.length := by
  induction cs generalizing m with
  | nil => cases m <;> simp [nameFrom]
  | cons c cs ih =>
    cases m with
    | between =>
      simp only [nameFrom]
      split
      · exact Nat.le_succ_of_le (ih _)
      · split
        · exact Nat.le_succ_of_le (ih _)
        · exact Nat.le_refl _
    | escape digits =>
      simp only [nameFrom]
      split
      · exact Nat.le_succ_of_le (ih _)
      · split
        · exact Nat.le_succ_of_le (ih _)
        · split
          · exact Nat.le_succ_of_le (ih _)
          · exact Nat.le_refl _

theorem length_skipParens (depth : Nat) (cs : List Char) :
    (skipParens depth cs).length ≤ cs.length := by
  induction cs generalizing depth with
  | nil => simp [skipParens]
  | cons c cs ih =>
    simp only [skipParens]
    split
    · exact Nat.le_succ_of_le (ih _)
    · split
      · split
        · exact Nat.le_succ _
        · exact Nat.le_succ_of_le (ih _)
      · exact Nat.le_succ_of_le (ih _)

/-- What a `:` does to the scope, given the text behind it: the scope that follows, and the text to
go on with. -/
def pseudo (isGlobal : Bool) (cs : List Char) : Bool × List Char :=
  let name := String.ofList ((cs.takeWhile isNameChar).map Char.toLower)
  let rest := cs.dropWhile isNameChar
  match name, rest with
  | "global", '(' :: _ => (isGlobal, skipParens 0 rest)
  | "global", _ => (true, rest)
  | "local", '(' :: inside => (isGlobal, inside)
  | "local", _ => (false, rest)
  | _, _ => (isGlobal, rest)

theorem length_dropWhile_le (p : Char → Bool) (cs : List Char) :
    (cs.dropWhile p).length ≤ cs.length := by
  induction cs with
  | nil => simp
  | cons c cs ih =>
    simp only [List.dropWhile]
    split
    · exact Nat.le_succ_of_le ih
    · exact Nat.le_refl _

theorem length_pseudo (isGlobal : Bool) (cs : List Char) :
    (pseudo isGlobal cs).2.length ≤ cs.length := by
  have h := length_dropWhile_le isNameChar cs
  dsimp only [pseudo]
  split
  · exact Nat.le_trans (length_skipParens 0 _) h
  · exact h
  · next hr => rw [hr] at h; exact Nat.le_of_succ_le h
  · exact h
  · exact h

/-- The classes in local scope, added to those found before in order of first occurrence. -/
def classesFrom (isGlobal : Bool) (found : List (List Char)) : List Char → List (List Char)
  | [] => found
  | c :: cs =>
    if c = ',' then classesFrom false found cs
    else if c = '[' then classesFrom isGlobal found ((cs.dropWhile (· != ']')).drop 1)
    else if c = ':' then
      classesFrom (pseudo isGlobal cs).1 found (pseudo isGlobal cs).2
    else if c = '.' then
      let name := (nameFrom .between cs).1
      let found :=
        if !isGlobal && isClassName name && !found.contains name then found ++ [name] else found
      classesFrom isGlobal found (nameFrom .between cs).2
    else classesFrom isGlobal found cs
termination_by cs => cs.length
decreasing_by
  · simp
  · have := length_dropWhile_le (· != ']') cs
    simp only [List.length_drop, List.length_cons]
    omega
  · exact Nat.lt_succ_of_le (length_pseudo isGlobal cs)
  · exact Nat.lt_succ_of_le (length_nameFrom .between cs)
  · simp

/-- The classes of a selector list in local scope, in order of first occurrence. -/
def localClasses (selector : List Char) : List (List Char) := classesFrom false [] selector

end CssModules.Selector
