import CssModules.Proofs.Stylesheet.Alike

namespace CssModules

namespace Lexeme

def Mode.inside : Mode → Bool
  | .plain | .slash _ => false
  | .comment .. | .string .. | .stringPair .. | .pair _ => true

variable {s : Scanner} {c : Char} {body cs : List Char} {place : Position}

theorem Alike.refl (l : Lexeme) : l.Alike l := by
  cases l with
  | text => exact .text
  | opening => exact .opening
  | closing => exact .closing
  | semicolon => exact .semicolon
  | fault => exact .fault

theorem plainStep_slash {here : Position} (h : (plainStep here c).2 = .slash place) : c = '/' := by
  by_contra hc
  simp only [plainStep, if_neg hc] at h
  split_ifs at h

theorem Scanner.step_slash (h : (s.step c).2.mode = .slash place) : c = '/' := by
  obtain ⟨mode, q⟩ := s
  cases mode with
  | plain => exact plainStep_slash h
  | slash =>
    simp only [step] at h
    split at h
    · cases h
    · exact plainStep_slash h
  | comment =>
    simp only [step] at h
    split at h <;> cases h
  | string =>
    simp only [step] at h
    split_ifs at h
  | stringPair => cases h
  | pair => cases h

theorem Scanner.getLast?_of_slash (h : (initial.run cs).2.mode = .slash place) :
    cs.getLast? = some '/' := by
  rcases List.eq_nil_or_concat cs with rfl | ⟨front, c, rfl⟩
  · cases h
  · rw [List.concat_eq_append] at h ⊢
    rw [run_append] at h
    rw [List.getLast?_concat, step_slash h]

theorem Scanner.lexemes_comment_alike (hs : s.mode.inside = false)
    (hslash : ∀ place, s.mode = .slash place → cs.head? ≠ some '*')
    (hbody : ¬['*', '/'] <:+: body) :
    List.Forall₂ Alike (s.lexemes ('/' :: '*' :: body ++ '*' :: '/' :: cs)) (s.lexemes cs) := by
  obtain ⟨mode, q⟩ := s
  cases mode with
  | plain =>
    rw [lexemes_begins (.comment hbody)]
    exact lexemes_alike .plain cs
  | slash place =>
    rw [lexemes_slash (hslash place rfl), lexemes_slash (by simp), lexemes_begins (.comment hbody)]
    exact .cons .text (lexemes_alike .plain cs)
  | comment | string | stringPair | pair => cases hs

end Lexeme

namespace Stylesheet

variable {p : Path} {u v : List Char}

theorem ofText_append (u v : List Char) : Lexeme.ofText (u ++ v) =
    (Lexeme.Scanner.initial.run u).1 ++ (Lexeme.Scanner.initial.run u).2.lexemes v := by
  rw [Lexeme.ofText, Lexeme.Scanner.run_append, Lexeme.Scanner.lexemes, ← List.append_assoc]

/-- Whether the scanner, having read a text, is outside of comments, strings and backslash pairs, or
does not get to the end of the text, since that is rejected before. -/
def EndsOutside (p : Path) (u : List Char) : Prop :=
  (Lexeme.Scanner.initial.run u).2.mode.inside = false ∨
    ∃ e, (Lexeme.Scanner.initial.run u).1.foldlM (Reading.step p) .initial = .error e

theorem ofLexemes_append_of_error {ls : List Lexeme} {e : Position × SyntaxFault}
    (h : ls.foldlM (Reading.step p) .initial = .error e) (more : List Lexeme) :
    ofLexemes p (ls ++ more) = .error e := by
  rw [ofLexemes, List.foldlM_append, h]
  rfl

theorem parallel_of_alike {ls ls' : List Lexeme} (h : List.Forall₂ Lexeme.Alike ls ls') :
    Parallel (fun sheet sheet' => sheet = empty.append sheet') (ofLexemes p ls) (ofLexemes p ls') := by
  have hinitial : Reading.initial.Behind empty .initial := ⟨rfl, .nil, [], nofun, rfl⟩
  exact hinitial.run h

/-- Comments are invisible: a text with a comment in it is read as it is without, or rejected for the
same fault. The comment can stand wherever the scanner is not inside of something else, but not
between a slash and a star, which would begin a comment without it. -/
theorem parse_comment (p : Path) (u c v : String) (hu : EndsOutside p u.toList)
    (hslash : u.toList.getLast? = some '/' → v.toList.head? ≠ some '*')
    (hc : ¬['*', '/'] <:+: c.toList) :
    Corresponds p id (parse p (u ++ "/*" ++ c ++ "*/" ++ v)) (parse p (u ++ v)) := by
  have hcomment : (u ++ "/*" ++ c ++ "*/" ++ v).toList =
      u.toList ++ ('/' :: '*' :: c.toList ++ '*' :: '/' :: v.toList) := by simp
  have hid : id = empty.append := by
    funext sheet
    exact (empty_append sheet).symm
  rw [hid]
  apply Parallel.parse
  rw [hcomment, String.toList_append, ofText_append, ofText_append]
  rcases hu with hu | ⟨⟨place, fault⟩, hu⟩
  · have hstar (place : Position)
        (hs : (Lexeme.Scanner.initial.run u.toList).2.mode = .slash place) :
        v.toList.head? ≠ some '*' := hslash (Lexeme.Scanner.getLast?_of_slash hs)
    apply parallel_of_alike
    apply List.rel_append (List.forall₂_same.2 fun l _ => Lexeme.Alike.refl l)
    exact Lexeme.Scanner.lexemes_comment_alike hu hstar hc
  · rw [ofLexemes_append_of_error hu, ofLexemes_append_of_error hu]
    exact .error

theorem parse_comment_amongNames :
    let p : Path := ⟨"/p/a.css"⟩
    let u := ".a\x7bcomposes: b"
    let v := " c;\x7d"
    EndsOutside p u.toList ∧ parse p (u ++ v) = .ok ⟨["a"], [⟨"a", ["b", "c"], .here⟩]⟩ ∧
      parse p (u ++ "/*" ++ "/" ++ "*/" ++ v) = .ok ⟨["a"], [⟨"a", ["b", "c"], .here⟩]⟩ := by
  intro p u v
  have hu : EndsOutside p u.toList := .inl (by decide +kernel)
  have hv : parse p (u ++ v) = .ok ⟨["a"], [⟨"a", ["b", "c"], .here⟩]⟩ := by decide +kernel
  have hc : ¬['*', '/'] <:+: "/".toList := by decide
  have hcomment := parse_comment p u "/" v hu (by decide) hc
  rw [hv] at hcomment
  refine ⟨hu, hv, ?_⟩
  generalize parse p (u ++ "/*" ++ "/" ++ "*/" ++ v) = result at hcomment
  cases hcomment
  rfl

end Stylesheet

end CssModules
