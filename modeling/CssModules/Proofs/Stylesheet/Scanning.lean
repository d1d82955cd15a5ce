import CssModules.Proofs.Stylesheet.Tokens
import CssModules.Stylesheet.Lexeme

namespace CssModules

def unbroken (c : Char) : Char := if c = '\n' then ' ' else c

namespace Position

def past (q : Position) (cs : List Char) : Position := cs.foldl next q

theorem past_cons (q : Position) (c : Char) (cs : List Char) :
    q.past (c :: cs) = (q.next c).past cs := rfl

theorem past_append (q : Position) (cs ds : List Char) :
    q.past (cs ++ ds) = (q.past cs).past ds := List.foldl_append

theorem next_of_ne (q : Position) {c : Char} (hc : c ≠ '\n') : q.next c = q.beside := if_neg hc

theorem next_unbroken (q : Position) (c : Char) : q.next (unbroken c) = q.beside := by
  rw [unbroken]
  split
  · rfl
  · next hc => exact next_of_ne q hc

end Position

namespace Stylesheet

/-- A token as the scanner counts it: no line ends in a string or behind a backslash. -/
def Token.counted : Token → List Char
  | .string quote body => (Token.string quote body).spelling.map unbroken
  | .pair c => (Token.pair c).spelling.map unbroken
  | t => t.spelling

def Token.lexemes (q : Position) : Token → List Lexeme
  | .comment _ => []
  | .opening => [.opening q.beside]
  | .closing => [.closing q.beside]
  | .semicolon => [.semicolon q.beside]
  | .other c => [.text (q.next c) [c]]
  | t => [.text q.beside t.spelling]

def lexemesOf (q : Position) : List Token → List Lexeme
  | [] => []
  | t :: ts => t.lexemes q ++ lexemesOf (q.past t.counted) ts

theorem lexemesOf_append (q : Position) (ts us : List Token) :
    lexemesOf q (ts ++ us) =
      lexemesOf q ts ++ lexemesOf (q.past (ts.flatMap Token.counted)) us := by
  induction ts generalizing q with
  | nil => rfl
  | cons t ts ih =>
    rw [List.cons_append, lexemesOf, ih, lexemesOf, List.flatMap_cons, Position.past_append,
      List.append_assoc]

end Stylesheet

namespace Lexeme

open Stylesheet (Token StringBody Reads ReadsTo Unclosed lexemesOf)

def Scanner.lexemes (s : Scanner) (cs : List Char) : List Lexeme :=
  (s.run cs).1 ++ (s.run cs).2.finish

variable {p q : Position} {c quote : Char} {cs body rest read : List Char} {star : Bool}
  {t : Token} {ts : List Token} {fault : SyntaxFault}

theorem Scanner.lexemes_cons (s : Scanner) (c : Char) (cs : List Char) :
    s.lexemes (c :: cs) = (s.step c).1 ++ (s.step c).2.lexemes cs := by
  simp [lexemes, run]

theorem ofText_eq (cs : List Char) : ofText cs = Scanner.lexemes ⟨.plain, ⟨1, 0⟩⟩ cs := rfl

theorem lexemes_comment_cons (hopen : ¬(star = true ∧ c = '/')) :
    Scanner.lexemes ⟨.comment p star, q⟩ (c :: cs) =
      Scanner.lexemes ⟨.comment p (decide (c = '*')), q.next c⟩ cs := by
  rw [Scanner.lexemes_cons, Scanner.step]
  simp only [if_neg hopen]
  rfl

theorem comment_goes_on (hbody : ¬['*', '/'] <:+: c :: body) :
    ¬['*', '/'] <:+: body ∧ (decide (c = '*') = true → body.head? ≠ some '/') := by
  refine ⟨fun h => hbody (h.trans (List.suffix_cons c body).isInfix), fun hc hhead => ?_⟩
  obtain ⟨rest, rfl⟩ := List.head?_eq_some_iff.1 hhead
  rw [of_decide_eq_true hc] at hbody
  exact hbody ⟨[], rest, rfl⟩

theorem lexemes_comment (p q : Position) (cs : List Char) (hbody : ¬['*', '/'] <:+: body)
    (hstar : star = true → body.head? ≠ some '/') :
    Scanner.lexemes ⟨.comment p star, q⟩ (body ++ '*' :: '/' :: cs) =
      Scanner.lexemes ⟨.plain, q.past (body ++ ['*', '/'])⟩ cs := by
  induction body generalizing star q with
  | nil =>
    rw [List.nil_append, Scanner.lexemes_cons, Scanner.lexemes_cons]
    simp [Scanner.step, Position.past]
  | cons c body ih =>
    have hopen : ¬(star = true ∧ c = '/') := by
      rintro ⟨hs, rfl⟩
      exact hstar hs rfl
    obtain ⟨hrest, hbehind⟩ := comment_goes_on hbody
    rw [List.cons_append, lexemes_comment_cons hopen, ih _ hrest hbehind]
    rfl

theorem lexemes_unclosed_comment (p q : Position) (hbody : ¬['*', '/'] <:+: body)
    (hstar : star = true → body.head? ≠ some '/') :
    Scanner.lexemes ⟨.comment p star, q⟩ body = [.fault p .unterminatedComment] := by
  induction body generalizing star q with
  | nil => rfl
  | cons c body ih =>
    have hopen : ¬(star = true ∧ c = '/') := by
      rintro ⟨hs, rfl⟩
      exact hstar hs rfl
    obtain ⟨hrest, hbehind⟩ := comment_goes_on hbody
    rw [lexemes_comment_cons hopen, ih _ hrest hbehind]

theorem lexemes_string_plain (hquote : c ≠ quote) (hbackslash : c ≠ '\\') (hbreak : c ≠ '\n') :
    Scanner.lexemes ⟨.string quote p read, q⟩ (c :: cs) =
      Scanner.lexemes ⟨.string quote p (read ++ [c]), q.beside⟩ cs := by
  rw [Scanner.lexemes_cons, Scanner.step]
  simp only [if_neg hquote, if_neg hbackslash, if_neg hbreak]
  rfl

theorem lexemes_string_pair :
    Scanner.lexemes ⟨.string quote p read, q⟩ ('\\' :: c :: cs) =
      Scanner.lexemes ⟨.string quote p (read ++ ['\\', c]), q.beside.beside⟩ cs := by
  rw [Scanner.lexemes_cons, Scanner.lexemes_cons, Scanner.step, Scanner.step]
  simp

theorem lexemes_string (p q : Position) (read cs : List Char) (hquote : quote ≠ '\\')
    (hbody : StringBody quote body) :
    Scanner.lexemes ⟨.string quote p read, q⟩ (body ++ quote :: cs) =
      .text p (read ++ body ++ [quote]) ::
        Scanner.lexemes ⟨.plain, q.past ((body ++ [quote]).map unbroken)⟩ cs := by
  induction hbody generalizing read q with
  | nil =>
    rw [List.nil_append, Scanner.lexemes_cons, Scanner.step]
    simp [hquote, Position.past, Position.next_unbroken]
  | @plain c body hc hbackslash hbreak _ ih =>
    rw [List.cons_append, lexemes_string_plain hc hbackslash hbreak, ih, List.cons_append,
      List.map_cons, Position.past_cons, Position.next_unbroken]
    simp
  | @pair c body _ ih =>
    rw [List.cons_append, List.cons_append, lexemes_string_pair, ih, List.cons_append,
      List.cons_append, List.map_cons, List.map_cons, Position.past_cons, Position.past_cons,
      Position.next_unbroken, Position.next_unbroken]
    simp

theorem lexemes_unclosed_string {cs read : List Char} {q : Position}
    (hopen : ∀ body more, StringBody quote body → cs ≠ body ++ quote :: more) :
    ∃ ls, Scanner.lexemes ⟨.string quote p read, q⟩ cs = .fault p .unterminatedString :: ls := by
  match cs with
  | [] => exact ⟨[], rfl⟩
  | c :: cs =>
    by_cases hbackslash : c = '\\'
    · subst hbackslash
      match cs with
      | [] =>
        rw [Scanner.lexemes_cons, Scanner.step]
        exact ⟨[], rfl⟩
      | d :: cs =>
        rw [lexemes_string_pair]
        refine lexemes_unclosed_string fun body more hbody he => ?_
        exact hopen ('\\' :: d :: body) more (.pair hbody) (congrArg ('\\' :: d :: ·) he)
    · by_cases hquote : c = quote
      · exact absurd (congrArg (· :: cs) hquote) (hopen [] cs .nil)
      · by_cases hbreak : c = '\n'
        · rw [Scanner.lexemes_cons, Scanner.step]
          simp only [if_neg hbackslash, if_neg hquote, if_pos hbreak]
          exact ⟨_, rfl⟩
        · rw [lexemes_string_plain hquote hbackslash hbreak]
          refine lexemes_unclosed_string fun body more hbody he => ?_
          exact hopen (c :: body) more (.plain hquote hbackslash hbreak hbody)
            (congrArg (c :: ·) he)

theorem lexemes_slash (h : cs.head? ≠ some '*') :
    Scanner.lexemes ⟨.slash p, q⟩ cs = .text p ['/'] :: Scanner.lexemes ⟨.plain, q⟩ cs := by
  cases cs with
  | nil => rfl
  | cons c cs =>
    have hc : c ≠ '*' := fun hc => h (congrArg some hc)
    rw [Scanner.lexemes_cons, Scanner.lexemes_cons, Scanner.step, Scanner.step]
    simp only [if_neg hc]
    rfl

theorem lexemes_plain (q : Position) (c : Char) (cs : List Char) :
    Scanner.lexemes ⟨.plain, q⟩ (c :: cs) = (plainStep (q.next c) c).1 ++
      Scanner.lexemes ⟨(plainStep (q.next c) c).2, q.next c⟩ cs := by
  rw [Scanner.lexemes_cons, Scanner.step]

theorem lexemes_quote (hquote : quote = '"' ∨ quote = '\'') (q : Position) (cs : List Char) :
    Scanner.lexemes ⟨.plain, q⟩ (quote :: cs) =
      Scanner.lexemes ⟨.string quote q.beside [quote], q.beside⟩ cs := by
  rw [lexemes_plain]
  rcases hquote with rfl | rfl <;> rfl

theorem lexemes_other (hc : c ∉ ['"', '\'', '\\', '\x7b', '\x7d', ';'])
    (hslash : c = '/' → cs.head? ≠ some '*') (q : Position) :
    Scanner.lexemes ⟨.plain, q⟩ (c :: cs) =
      .text (q.next c) [c] :: Scanner.lexemes ⟨.plain, q.next c⟩ cs := by
  rw [lexemes_plain]
  by_cases h : c = '/'
  · subst h
    exact lexemes_slash (hslash rfl)
  · simp only [List.mem_cons, List.not_mem_nil, or_false, not_or] at hc
    obtain ⟨h₁, h₂, h₃, h₄, h₅, h₆⟩ := hc
    rw [plainStep, if_neg h, if_neg (not_or.2 ⟨h₁, h₂⟩), if_neg h₃, if_neg h₄, if_neg h₅, if_neg h₆]
    rfl

theorem lexemes_begins (h : t.Begins cs rest) (q : Position) :
    Scanner.lexemes ⟨.plain, q⟩ cs =
      t.lexemes q ++ Scanner.lexemes ⟨.plain, q.past t.counted⟩ rest := by
  cases h with
  | comment hbody =>
    exact lexemes_comment q.beside q.beside.beside rest hbody nofun
  | @string quote body _ hquote hbody =>
    have hne : quote ≠ '\\' := by rcases hquote with rfl | rfl <;> decide
    have hend : q.past (Token.string quote body).counted =
        q.beside.past ((body ++ [quote]).map unbroken) := by
      rw [Token.counted, Token.spelling, List.cons_append, List.map_cons, Position.past_cons,
        Position.next_unbroken]
    rw [List.cons_append, lexemes_quote hquote, lexemes_string _ _ _ _ hne hbody, hend]
    rfl
  | @pair c =>
    have hend : q.past (Token.pair c).counted = q.beside.beside := by
      rw [Token.counted, Token.spelling, List.map_cons, List.map_cons, Position.past_cons,
        Position.past_cons, Position.next_unbroken, Position.next_unbroken]
      rfl
    rw [hend]
    rfl
  | opening | closing | semicolon => rfl
  | other hc hslash => exact lexemes_other hc hslash q

/-- The lexemes of a text, as far as it has been read, are those of the tokens. -/
theorem lexemes_readsTo (h : ReadsTo rest cs ts) (q : Position) :
    Scanner.lexemes ⟨.plain, q⟩ cs =
      lexemesOf q ts ++ Scanner.lexemes ⟨.plain, q.past (ts.flatMap Token.counted)⟩ rest := by
  induction h generalizing q with
  | nil => rfl
  | cons ht _ ih =>
    rw [lexemes_begins ht, ih, lexemesOf, List.flatMap_cons, Position.past_append,
      List.append_assoc]

theorem lexemes_reads (h : Reads cs ts) (q : Position) :
    Scanner.lexemes ⟨.plain, q⟩ cs = lexemesOf q ts := by
  induction ts generalizing cs q with
  | nil =>
    cases h
    rfl
  | cons t ts ih =>
    rcases h.begins with ⟨rest, ht, hrest⟩ | ⟨rfl, rfl, rfl⟩
    · rw [lexemes_begins ht, ih hrest, lexemesOf]
    · rfl

theorem lexemes_unclosed (h : Unclosed cs fault) (q : Position) :
    ∃ ls, Scanner.lexemes ⟨.plain, q⟩ cs = .fault q.beside fault :: ls := by
  cases h with
  | comment hbody => exact ⟨[], lexemes_unclosed_comment q.beside q.beside.beside hbody nofun⟩
  | string hquote hopen =>
    rw [lexemes_quote hquote]
    exact lexemes_unclosed_string hopen

end Lexeme

end CssModules
