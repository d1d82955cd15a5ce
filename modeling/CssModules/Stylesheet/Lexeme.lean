import CssModules.Error

/-!
A stylesheet as a sequence of lexemes: braces, semicolons, and text with its comments taken out. The
scanner reads one character at a time, so that what it does with two texts, one behind the other, is
what it does with the first and then with the second.
-/

namespace CssModules

/-- A piece of a stylesheet, with the position of its first character. -/
inductive Lexeme where
  | text (start : Position) (chars : List Char)
  | opening (start : Position)
  | closing (start : Position)
  | semicolon (start : Position)
  | fault (start : Position) (fault : SyntaxFault)
  deriving DecidableEq, Repr

namespace Lexeme

/-- What the scanner is inside of. -/
inductive Mode where
  | plain
  | slash (start : Position)
  | comment (start : Position) (star : Bool)
  | string (quote : Char) (start : Position) (read : List Char)
  | stringPair (quote : Char) (start : Position) (read : List Char)
  | pair (start : Position)
  deriving DecidableEq, Repr

/-- The scanner: what it is inside of, and where the last character stood. -/
structure Scanner where
  mode : Mode
  position : Position
  deriving DecidableEq, Repr

def Scanner.initial : Scanner := ⟨.plain, ⟨1, 0⟩⟩

end Lexeme

def Position.beside (p : Position) : Position := ⟨p.line, p.column + 1⟩

/-- Where a character stands that follows the one at a position; a newline stands before its line. -/
def Position.next (p : Position) (c : Char) : Position :=
  if c = '\n' then ⟨p.line + 1, 0⟩ else p.beside

namespace Lexeme

def plainStep (here : Position) (c : Char) : List Lexeme × Mode :=
  if c = '/' then ([], .slash here)
  else if c = '"' ∨ c = '\'' then ([], .string c here [c])
  else if c = '\\' then ([], .pair here)
  else if c = '\x7b' then ([.opening here], .plain)
  else if c = '\x7d' then ([.closing here], .plain)
  else if c = ';' then ([.semicolon here], .plain)
  else ([.text here [c]], .plain)

/-- Reads one more character. A line ends at every newline but those of strings and pairs. -/
def Scanner.step (s : Scanner) (c : Char) : List Lexeme × Scanner :=
  let next := s.position.next c
  let beside := s.position.beside
  match s.mode with
  | .plain =>
    let (out, mode) := plainStep next c
    (out, ⟨mode, next⟩)
  | .slash start =>
    if c = '*' then ([], ⟨.comment start false, beside⟩)
    else
      let (out, mode) := plainStep next c
      (.text start ['/'] :: out, ⟨mode, next⟩)
  | .comment start star =>
    if star ∧ c = '/' then ([], ⟨.plain, next⟩) else ([], ⟨.comment start (c = '*'), next⟩)
  | .string quote start read =>
    let read := read ++ [c]
    if c = '\\' then ([], ⟨.stringPair quote start read, beside⟩)
    else if c = quote then ([.text start read], ⟨.plain, beside⟩)
    else if c = '\n' then ([.fault start .unterminatedString], ⟨.plain, beside⟩)
    else ([], ⟨.string quote start read, beside⟩)
  | .stringPair quote start read => ([], ⟨.string quote start (read ++ [c]), beside⟩)
  | .pair start => ([.text start ['\\', c]], ⟨.plain, beside⟩)

def Scanner.finish (s : Scanner) : List Lexeme :=
  match s.mode with
  | .plain => []
  | .slash start => [.text start ['/']]
  | .comment start _ => [.fault start .unterminatedComment]
  | .string _ start _ | .stringPair _ start _ => [.fault start .unterminatedString]
  | .pair start => [.text start ['\\']]

def Scanner.run (s : Scanner) : List Char → List Lexeme × Scanner
  | [] => ([], s)
  | c :: cs =>
    let (out, s) := s.step c
    let (rest, s) := s.run cs
    (out ++ rest, s)

/-- The lexemes of a text. -/
def ofText (source : List Char) : List Lexeme :=
  let (out, s) := Scanner.initial.run source
  out ++ s.finish

theorem Scanner.run_append (s : Scanner) (u v : List Char) :
    s.run (u ++ v) = ((s.run u).1 ++ ((s.run u).2.run v).1, ((s.run u).2.run v).2) := by
  induction u generalizing s with
  | nil => rfl
  | cons c u ih => simp [run, ih]

end Lexeme

end CssModules
