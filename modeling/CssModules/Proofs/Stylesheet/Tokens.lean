import CssModules.Error
import Mathlib.Data.List.Infix

/-!
A stylesheet as a sequence of tokens, written down one behind the other: comments, strings,
backslash pairs, braces, semicolons and other characters. A text is read as tokens in one way at
most, and to its end unless there is a comment or string in it that is not closed.
-/

namespace CssModules

namespace Stylesheet

/-- A piece of a stylesheet as it is written. -/
inductive Token where
  | comment (body : List Char)
  | string (quote : Char) (body : List Char)
  | pair (c : Char)
  | opening
  | closing
  | semicolon
  | other (c : Char)
  deriving DecidableEq

/-- What may stand between two quotes: a backslash takes the next character with it, and a line does
not end. -/
inductive StringBody (quote : Char) : List Char → Prop where
  | nil : StringBody quote []
  | plain {c : Char} {cs : List Char} (hquote : c ≠ quote) (hbackslash : c ≠ '\\')
      (hbreak : c ≠ '\n') (rest : StringBody quote cs) : StringBody quote (c :: cs)
  | pair {c : Char} {cs : List Char} (rest : StringBody quote cs) :
      StringBody quote ('\\' :: c :: cs)

/-- Reading a text from left to right, all comments and strings of which are closed: no comment goes
on behind the first `*/`, and a slash with a star behind it begins one. -/
inductive Reads : List Char → List Token → Prop where
  | nil : Reads [] []
  | comment {body cs : List Char} {ts : List Token} (hbody : ¬['*', '/'] <:+: body)
      (rest : Reads cs ts) : Reads ('/' :: '*' :: body ++ '*' :: '/' :: cs) (.comment body :: ts)
  | string {quote : Char} {body cs : List Char} {ts : List Token}
      (hquote : quote = '"' ∨ quote = '\'') (hbody : StringBody quote body) (rest : Reads cs ts) :
      Reads (quote :: body ++ quote :: cs) (.string quote body :: ts)
  | pair {c : Char} {cs : List Char} {ts : List Token} (rest : Reads cs ts) :
      Reads ('\\' :: c :: cs) (.pair c :: ts)
  | opening {cs : List Char} {ts : List Token} (rest : Reads cs ts) :
      Reads ('\x7b' :: cs) (.opening :: ts)
  | closing {cs : List Char} {ts : List Token} (rest : Reads cs ts) :
      Reads ('\x7d' :: cs) (.closing :: ts)
  | semicolon {cs : List Char} {ts : List Token} (rest : Reads cs ts) :
      Reads (';' :: cs) (.semicolon :: ts)
  | other {c : Char} {cs : List Char} {ts : List Token}
      (hc : c ∉ ['"', '\'', '\\', '\x7b', '\x7d', ';']) (hslash : c = '/' → cs.head? ≠ some '*')
      (rest : Reads cs ts) : Reads (c :: cs) (.other c :: ts)
  | backslash : Reads ['\\'] [.other '\\']

/-- What a token says in a selector or declaration; comments are not part of it. -/
def Token.chars : Token → List Char
  | .string quote body => quote :: body ++ [quote]
  | .pair c => ['\\', c]
  | .other c => [c]
  | _ => []

variable {quote : Char} {body body' cs cs' : List Char} {ts ts' : List Token}

theorem comment_inj (hbody : ¬['*', '/'] <:+: body) (hbody' : ¬['*', '/'] <:+: body')
    (h : body ++ '*' :: '/' :: cs = body' ++ '*' :: '/' :: cs') : body = body' ∧ cs = cs' := by
  have longer {body more cs cs' : List Char} (hbody : ¬['*', '/'] <:+: body ++ more)
      (h : '*' :: '/' :: cs = more ++ '*' :: '/' :: cs') : more = [] := by
    match more with
    | [] => rfl
    | [c] => simp at h
    | c :: d :: more =>
      simp only [List.cons_append, List.cons.injEq] at h
      obtain ⟨rfl, rfl, -⟩ := h
      exact absurd ⟨body, more, by simp⟩ hbody
  rcases List.append_eq_append_iff.1 h with ⟨more, rfl, he⟩ | ⟨more, rfl, he⟩
  · obtain rfl := longer hbody' he
    simpa using he
  · obtain rfl := longer hbody he
    simpa [eq_comm] using he

theorem StringBody.inj (hquote : quote ≠ '\\') (hbody : StringBody quote body)
    (hbody' : StringBody quote body') (h : body ++ quote :: cs = body' ++ quote :: cs') :
    body = body' ∧ cs = cs' := by
  induction hbody generalizing body' with
  | nil =>
    cases hbody' with
    | nil => exact ⟨rfl, (List.cons.inj h).2⟩
    | plain hc => exact absurd (List.cons.inj h).1.symm hc
    | pair => exact absurd (List.cons.inj h).1 hquote
  | plain hc hbackslash _ _ ih =>
    cases hbody' with
    | nil => exact absurd (List.cons.inj h).1 hc
    | plain _ _ _ rest =>
      obtain ⟨rfl, htail⟩ := List.cons.inj h
      obtain ⟨rfl, rfl⟩ := ih rest htail
      exact ⟨rfl, rfl⟩
    | pair => exact absurd (List.cons.inj h).1 hbackslash
  | pair _ ih =>
    cases hbody' with
    | nil => exact absurd (List.cons.inj h).1.symm hquote
    | plain _ hbackslash => exact absurd (List.cons.inj h).1.symm hbackslash
    | pair rest =>
      obtain ⟨rfl, htail⟩ := List.cons.inj (List.cons.inj h).2
      obtain ⟨rfl, rfl⟩ := ih rest htail
      exact ⟨rfl, rfl⟩

theorem stringBody_of_forall {quote : Char} {cs : List Char}
    (h : ∀ c ∈ cs, c ≠ quote ∧ c ≠ '\\' ∧ c ≠ '\n') : StringBody quote cs := by
  induction cs with
  | nil => exact .nil
  | cons c cs ih =>
    obtain ⟨⟨hquote, hbackslash, hbreak⟩, hrest⟩ := List.forall_mem_cons.1 h
    exact .plain hquote hbackslash hbreak (ih hrest)

theorem Reads.unique (h : Reads cs ts) (h' : Reads cs ts') : ts = ts' := by
  induction h generalizing ts' with
  | nil =>
    cases h'
    rfl
  | @comment body cs ts hbody rest ih =>
    generalize hcs : '/' :: '*' :: body ++ '*' :: '/' :: cs = whole at h'
    cases h' with
    | comment hbody' rest' =>
      obtain ⟨rfl, rfl⟩ := comment_inj hbody hbody' (List.cons.inj (List.cons.inj hcs).2).2
      rw [ih rest']
    | string hquote => rcases hquote with rfl | rfl <;> simp at hcs
    | other hc hslash =>
      obtain ⟨rfl, rfl⟩ := List.cons.inj hcs
      exact absurd rfl (hslash rfl)
    | _ => simp at hcs
  | @string quote body cs ts hquote hbody rest ih =>
    generalize hcs : quote :: body ++ quote :: cs = whole at h'
    have hbackslash : quote ≠ '\\' := by rcases hquote with rfl | rfl <;> decide
    cases h' with
    | string hquote' hbody' rest' =>
      obtain ⟨rfl, htail⟩ := List.cons.inj hcs
      obtain ⟨rfl, rfl⟩ := hbody.inj hbackslash hbody' htail
      rw [ih rest']
    | other hc =>
      obtain ⟨rfl, -⟩ := List.cons.inj hcs
      exact absurd (by rcases hquote with rfl | rfl <;> simp) hc
    | _ => rcases hquote with rfl | rfl <;> simp at hcs
  | @pair c cs ts rest ih =>
    generalize hcs : '\\' :: c :: cs = whole at h'
    cases h' with
    | pair rest' =>
      obtain ⟨rfl, rfl⟩ := List.cons.inj (List.cons.inj hcs).2
      rw [ih rest']
    | string hquote => rcases hquote with rfl | rfl <;> simp at hcs
    | other hc =>
      obtain ⟨rfl, -⟩ := List.cons.inj hcs
      simp at hc
    | _ => simp at hcs
  | @opening cs ts rest ih | @closing cs ts rest ih | @semicolon cs ts rest ih =>
    generalize hcs : _ :: cs = whole at h'
    cases h' with
    | opening rest' | closing rest' | semicolon rest' =>
      obtain ⟨hc, rfl⟩ := List.cons.inj hcs
      have hts := ih rest'
      simp_all
    | string hquote => rcases hquote with rfl | rfl <;> simp at hcs
    | other hc =>
      obtain ⟨rfl, -⟩ := List.cons.inj hcs
      simp at hc
    | _ => simp at hcs
  | @other c cs ts hc hslash rest ih =>
    generalize hcs : c :: cs = whole at h'
    cases h' with
    | other _ _ rest' =>
      obtain ⟨rfl, rfl⟩ := List.cons.inj hcs
      rw [ih rest']
    | comment =>
      obtain ⟨rfl, rfl⟩ := List.cons.inj hcs
      exact absurd rfl (hslash rfl)
    | string hquote =>
      obtain ⟨rfl, -⟩ := List.cons.inj hcs
      rcases hquote with rfl | rfl <;> simp at hc
    | nil => cases hcs
    | _ =>
      obtain ⟨rfl, -⟩ := List.cons.inj hcs
      simp at hc
  | backslash =>
    generalize hcs : ['\\'] = whole at h'
    cases h' with
    | backslash => rfl
    | string hquote => rcases hquote with rfl | rfl <;> simp at hcs
    | other hc =>
      obtain ⟨rfl, -⟩ := List.cons.inj hcs
      simp at hc
    | _ => simp at hcs

def Token.spelling : Token → List Char
  | .comment body => '/' :: '*' :: body ++ ['*', '/']
  | .string quote body => quote :: body ++ [quote]
  | .pair c => ['\\', c]
  | .opening => ['\x7b']
  | .closing => ['\x7d']
  | .semicolon => [';']
  | .other c => [c]

/-- A text that begins with a token, and what stands behind that. -/
inductive Token.Begins : Token → List Char → List Char → Prop where
  | comment {body rest : List Char} (hbody : ¬['*', '/'] <:+: body) :
      Begins (.comment body) ('/' :: '*' :: body ++ '*' :: '/' :: rest) rest
  | string {quote : Char} {body rest : List Char} (hquote : quote = '"' ∨ quote = '\'')
      (hbody : StringBody quote body) :
      Begins (.string quote body) (quote :: body ++ quote :: rest) rest
  | pair {c : Char} {rest : List Char} : Begins (.pair c) ('\\' :: c :: rest) rest
  | opening {rest : List Char} : Begins .opening ('\x7b' :: rest) rest
  | closing {rest : List Char} : Begins .closing ('\x7d' :: rest) rest
  | semicolon {rest : List Char} : Begins .semicolon (';' :: rest) rest
  | other {c : Char} {rest : List Char} (hc : c ∉ ['"', '\'', '\\', '\x7b', '\x7d', ';'])
      (hslash : c = '/' → rest.head? ≠ some '*') : Begins (.other c) (c :: rest) rest

/-- Reading a text up to where `rest` begins. -/
inductive ReadsTo (rest : List Char) : List Char → List Token → Prop where
  | nil : ReadsTo rest rest []
  | cons {t : Token} {cs ds : List Char} {ts : List Token} (ht : t.Begins cs ds)
      (hts : ReadsTo rest ds ts) : ReadsTo rest cs (t :: ts)

/-- A text that begins with a comment or string which is not closed. -/
inductive Unclosed : List Char → SyntaxFault → Prop where
  | comment {body : List Char} (hbody : ¬['*', '/'] <:+: body) :
      Unclosed ('/' :: '*' :: body) .unterminatedComment
  | string {quote : Char} {rest : List Char} (hquote : quote = '"' ∨ quote = '\'')
      (hopen : ∀ body more, StringBody quote body → rest ≠ body ++ quote :: more) :
      Unclosed (quote :: rest) .unterminatedString

section Prefixes

variable {t : Token} {cs ds rest rest' : List Char} {ts us : List Token} {fault : SyntaxFault}

theorem Token.Begins.eq_append (h : t.Begins cs rest) : cs = t.spelling ++ rest := by
  cases h <;> simp [Token.spelling]

theorem Token.Begins.reads (h : t.Begins cs rest) (hts : Reads rest ts) : Reads cs (t :: ts) := by
  cases h with
  | comment hbody => exact .comment hbody hts
  | string hquote hbody => exact .string hquote hbody hts
  | pair => exact .pair hts
  | opening => exact .opening hts
  | closing => exact .closing hts
  | semicolon => exact .semicolon hts
  | other hc hslash => exact .other hc hslash hts

theorem Reads.begins (h : Reads cs (t :: ts)) :
    (∃ rest, t.Begins cs rest ∧ Reads rest ts) ∨ cs = ['\\'] ∧ t = .other '\\' ∧ ts = [] := by
  cases h with
  | comment hbody hts => exact .inl ⟨_, .comment hbody, hts⟩
  | string hquote hbody hts => exact .inl ⟨_, .string hquote hbody, hts⟩
  | pair hts => exact .inl ⟨_, .pair, hts⟩
  | opening hts => exact .inl ⟨_, .opening, hts⟩
  | closing hts => exact .inl ⟨_, .closing, hts⟩
  | semicolon hts => exact .inl ⟨_, .semicolon, hts⟩
  | other hc hslash hts => exact .inl ⟨_, .other hc hslash, hts⟩
  | backslash => exact .inr ⟨rfl, rfl, rfl⟩

namespace ReadsTo

theorem append (h : ReadsTo rest cs ts) (h' : ReadsTo rest' rest us) :
    ReadsTo rest' cs (ts ++ us) := by
  induction h with
  | nil => exact h'
  | cons ht _ ih => exact .cons ht ih

theorem finish (h : ReadsTo rest cs ts) (h' : Reads rest us) : Reads cs (ts ++ us) := by
  induction h with
  | nil => exact h'
  | cons ht _ ih => exact ht.reads ih

theorem eq_append (h : ReadsTo rest cs ts) : cs = ts.flatMap Token.spelling ++ rest := by
  induction h with
  | nil => rfl
  | cons ht _ ih => rw [ht.eq_append, ih, List.flatMap_cons, List.append_assoc]

theorem split (h : ReadsTo rest cs (ts ++ us)) :
    ∃ ds, ReadsTo ds cs ts ∧ ReadsTo rest ds us := by
  induction ts generalizing cs with
  | nil => exact ⟨cs, .nil, h⟩
  | cons t ts ih =>
    cases h with
    | cons ht hts =>
      obtain ⟨ds, hto, hrest⟩ := ih hts
      exact ⟨ds, .cons ht hto, hrest⟩

end ReadsTo

theorem Reads.split (h : Reads cs (ts ++ t :: us)) :
    ∃ rest, ReadsTo rest cs ts ∧ Reads rest (t :: us) := by
  induction ts generalizing cs with
  | nil => exact ⟨cs, .nil, h⟩
  | cons s ts ih =>
    rcases h.begins with ⟨ds, hs, hts⟩ | ⟨-, -, hnil⟩
    · obtain ⟨rest, hto, hrest⟩ := ih hts
      exact ⟨rest, .cons hs hto, hrest⟩
    · simp at hnil

theorem Reads.readsTo_append (h : Reads cs ts)
    (hlast : ∀ c ∈ ['\\', '/'], ts.getLast? ≠ some (.other c)) : ReadsTo rest (cs ++ rest) ts := by
  have before {t : Token} {ts : List Token}
      (hlast : ∀ c ∈ ['\\', '/'], (t :: ts).getLast? ≠ some (.other c)) :
      ∀ c ∈ ['\\', '/'], ts.getLast? ≠ some (.other c) := by
    intro c hc he
    apply hlast c hc
    rw [List.getLast?_cons, he]
    rfl
  induction h with
  | nil => exact .nil
  | comment hbody _ ih =>
    have hto := ReadsTo.cons (.comment hbody) (ih (before hlast))
    simpa using hto
  | string hquote hbody _ ih =>
    have hto := ReadsTo.cons (.string hquote hbody) (ih (before hlast))
    simpa using hto
  | pair _ ih => exact .cons .pair (ih (before hlast))
  | opening _ ih => exact .cons .opening (ih (before hlast))
  | closing _ ih => exact .cons .closing (ih (before hlast))
  | semicolon _ ih => exact .cons .semicolon (ih (before hlast))
  | @other c cs ts hc hslash hts ih =>
    refine .cons (.other hc ?_) (ih (before hlast))
    rintro rfl
    cases cs with
    | nil =>
      cases hts
      exact absurd rfl (hlast '/' (by simp))
    | cons d cs => exact hslash rfl
  | backslash => exact absurd rfl (hlast '\\' (by simp))

theorem exists_comment_end (h : ['*', '/'] <:+: cs) :
    ∃ body rest, cs = body ++ '*' :: '/' :: rest ∧ ¬['*', '/'] <:+: body := by
  induction cs with
  | nil => simp at h
  | cons c cs ih =>
    by_cases hhere : ['*', '/'] <+: c :: cs
    · obtain ⟨rest, he⟩ := hhere
      exact ⟨[], rest, he.symm, by simp⟩
    · have hlater := (List.infix_cons_iff.1 h).resolve_left hhere
      obtain ⟨body, rest, rfl, hbody⟩ := ih hlater
      refine ⟨c :: body, rest, rfl, fun hinfix => ?_⟩
      rcases List.infix_cons_iff.1 hinfix with hfirst | hinfix
      · exact hhere (hfirst.trans (List.prefix_append (c :: body) _))
      · exact hbody hinfix

theorem exists_begins (hne : cs ≠ []) :
    (∃ t rest, Token.Begins t cs rest) ∨ cs = ['\\'] ∨ ∃ fault, Unclosed cs fault := by
  obtain ⟨c, cs, rfl⟩ := List.exists_cons_of_ne_nil hne
  by_cases hcomment : c = '/' ∧ cs.head? = some '*'
  · obtain ⟨rfl, hstar⟩ := hcomment
    obtain ⟨cs, rfl⟩ := List.head?_eq_some_iff.1 hstar
    by_cases hend : ['*', '/'] <:+: cs
    · obtain ⟨body, rest, rfl, hbody⟩ := exists_comment_end hend
      exact .inl ⟨_, rest, .comment hbody⟩
    · exact .inr (.inr ⟨_, .comment hend⟩)
  by_cases hquote : c = '"' ∨ c = '\''
  · by_cases hclosed : ∃ body more, StringBody c body ∧ cs = body ++ c :: more
    · obtain ⟨body, more, hbody, rfl⟩ := hclosed
      exact .inl ⟨_, more, .string hquote hbody⟩
    · refine .inr (.inr ⟨_, .string hquote fun body more hbody he => hclosed ?_⟩)
      exact ⟨body, more, hbody, he⟩
  by_cases hbackslash : c = '\\'
  · subst hbackslash
    cases cs with
    | nil => exact .inr (.inl rfl)
    | cons d cs => exact .inl ⟨_, cs, .pair⟩
  by_cases hc : c ∈ ['\x7b', '\x7d', ';']
  · simp only [List.mem_cons, List.not_mem_nil, or_false] at hc
    rcases hc with rfl | rfl | rfl
    · exact .inl ⟨_, cs, .opening⟩
    · exact .inl ⟨_, cs, .closing⟩
    · exact .inl ⟨_, cs, .semicolon⟩
  · have hslash : c = '/' → cs.head? ≠ some '*' := fun hc hstar => hcomment ⟨hc, hstar⟩
    have hother : c ∉ ['"', '\'', '\\', '\x7b', '\x7d', ';'] := by
      rw [List.mem_cons, List.mem_cons, List.mem_cons, ← or_assoc]
      exact not_or.2 ⟨hquote, not_or.2 ⟨hbackslash, hc⟩⟩
    exact .inl ⟨_, cs, .other hother hslash⟩

theorem Token.Begins.length_lt (h : t.Begins cs rest) : rest.length < cs.length := by
  have hne : t.spelling ≠ [] := by cases t <;> simp [Token.spelling]
  have hpos := List.length_pos_iff.2 hne
  rw [h.eq_append, List.length_append]
  omega

/-- A text can be read to its end, or up to a comment or string that is not closed. -/
theorem reads_or_unclosed (cs : List Char) :
    (∃ ts, Reads cs ts) ∨ ∃ ts rest fault, ReadsTo rest cs ts ∧ Unclosed rest fault := by
  induction hn : cs.length using Nat.strong_induction_on generalizing cs with
  | _ n ih =>
    subst hn
    by_cases hne : cs = []
    · exact .inl ⟨[], hne ▸ .nil⟩
    rcases exists_begins hne with ⟨t, rest, ht⟩ | rfl | ⟨fault, hopen⟩
    · rcases ih rest.length ht.length_lt rest rfl with ⟨ts, hts⟩ | ⟨ts, left, fault, hto, hopen⟩
      · exact .inl ⟨t :: ts, ht.reads hts⟩
      · exact .inr ⟨t :: ts, left, fault, .cons ht hto, hopen⟩
    · exact .inl ⟨_, .backslash⟩
    · exact .inr ⟨[], cs, fault, .nil, hopen⟩

end Prefixes

end Stylesheet

end CssModules
