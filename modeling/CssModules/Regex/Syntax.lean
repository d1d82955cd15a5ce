import CssModules.Regex.CaseFolding
import CssModules.Regex.Word
import CssModules.Text.Space

namespace CssModules.Regex

/-- A set of characters. -/
inductive CharSet where
  | ranges (rs : Ranges)
  | space
  | complement (s : CharSet)
  | anyCase (s : CharSet)
  | union (s t : CharSet)
  | intersection (s t : CharSet)
  | difference (s t : CharSet)
  | symmetricDifference (s t : CharSet)
  deriving Repr

namespace CharSet

def empty : CharSet := .ranges []

def single (c : Char) : CharSet := .ranges [(c.toNat, c.toNat)]

def contains : CharSet → Nat → Bool
  | .ranges rs, n => rs.contains n
  | .space, n => Text.isSpace (Char.ofNat n)
  | .complement s, n => !s.contains n
  | .anyCase s, n => (caseVariants n).any s.contains
  | .union s t, n => s.contains n || t.contains n
  | .intersection s t, n => s.contains n && t.contains n
  | .difference s t, n => s.contains n && !t.contains n
  | .symmetricDifference s t, n => s.contains n != t.contains n

end CharSet

/-- What can be asked of a place in a text. -/
inductive Look where
  | startText
  | endText
  | startLine
  | endLine
  | wordBoundary
  | notWordBoundary
  | wordStart
  | wordEnd
  | wordStartHalf
  | wordEndHalf
  deriving DecidableEq, Repr

def Look.holds (look : Look) (before after : Option Char) : Bool :=
  let wordBefore := before.any isWord
  let wordAfter := after.any isWord
  match look with
  | .startText => before.isNone
  | .endText => after.isNone
  | .startLine => before.all (· == '\n')
  | .endLine => after.all (· == '\n')
  | .wordBoundary => wordBefore != wordAfter
  | .notWordBoundary => wordBefore == wordAfter
  | .wordStart => !wordBefore && wordAfter
  | .wordEnd => wordBefore && !wordAfter
  | .wordStartHalf => !wordBefore
  | .wordEndHalf => !wordAfter

/-- A regular expression. -/
inductive Expr where
  | empty
  | set (s : CharSet)
  | look (l : Look)
  | group (index : Nat) (e : Expr)
  | concat (e f : Expr)
  | alternate (e f : Expr)
  | repeated (e : Expr) (least : Nat) (most : Option Nat) (greedy : Bool)
  deriving Repr

namespace Expr

def isNullable : Expr → Bool
  | .empty | .look _ => true
  | .set _ => false
  | .group _ e => e.isNullable
  | .concat e f => e.isNullable && f.isNullable
  | .alternate e f => e.isNullable || f.isNullable
  | .repeated e least _ _ => least == 0 || e.isNullable

def takesNothing : Expr → Bool
  | .empty | .look _ => true
  | .set _ => false
  | .group _ e => e.takesNothing
  | .concat e f | .alternate e f => e.takesNothing && f.takesNothing
  | .repeated e _ most _ => most == some 0 || e.takesNothing

/-- A repetition in its simplest form: what takes nothing is not repeated more than once. -/
def times (e : Expr) (least : Nat) (most : Option Nat) (greedy : Bool) : Expr :=
  let (least, most) :=
    if e.takesNothing then (min least 1, some ((most.map (min · 1)).getD 1)) else (least, most)
  if least = 0 ∧ most = some 0 then .empty
  else if least = 1 ∧ most = some 1 then e
  else .repeated e least most greedy

def groupCount : Expr → Nat
  | .empty | .set _ | .look _ => 1
  | .group index e => max (index + 1) e.groupCount
  | .concat e f | .alternate e f => max e.groupCount f.groupCount
  | .repeated e _ _ _ => e.groupCount

def size : Expr → Nat
  | .empty => 0
  | .set _ | .look _ => 1
  | .group _ e => e.size + 2
  | .concat e f => e.size + f.size
  | .alternate e f => e.size + f.size + 1
  | .repeated e least most _ => (e.size + 1) * (max least (most.getD (least + 1)))

end Expr

end CssModules.Regex
