import CssModules.Proofs.Stylesheet.ClassNames
import CssModules.Proofs.Stylesheet.Tokens

namespace CssModules.Selector

open Stylesheet (StringBody)

/-- The pieces of a selector list in order. -/
inductive Outline where
  | nil
  | backslash
  | char (c : Char) (rest : Outline)
  | escaped (c : Char) (rest : Outline)
  | quoted (quote : Char) (body : List Char) (rest : Outline)
  | comma (rest : Outline)
  | dot (name : List Char) (rest : Outline)
  | pseudo (name : List Char) (rest : Outline)
  | call (name : List Char) (inside rest : Outline)
  | parens (inside rest : Outline)
  | brackets (inside rest : Outline)
  deriving DecidableEq

def delimiters : List Char := ['"', '\'', '[', ']', '(', ')']

def structural : List Char := delimiters ++ ['\\', '.', ',', ':']

/-- Whether a name goes as far as it can in the text that follows. -/
def LongestName (name after : List Char) : Prop :=
  Name name ∧ ∀ more rest, after = more ++ rest → Name (name ++ more) → more = []

namespace Outline

def text : Outline → List Char
  | nil => []
  | backslash => ['\\']
  | char c rest => c :: rest.text
  | escaped c rest => '\\' :: c :: rest.text
  | quoted quote body rest => quote :: (body ++ quote :: rest.text)
  | comma rest => ',' :: rest.text
  | dot name rest => '.' :: (name ++ rest.text)
  | pseudo name rest => ':' :: (name ++ rest.text)
  | call name inside rest => ':' :: (name ++ '(' :: (inside.text ++ ')' :: rest.text))
  | parens inside rest => '(' :: (inside.text ++ ')' :: rest.text)
  | brackets inside rest => '[' :: (inside.text ++ ']' :: rest.text)

/-- Whether an outline is that of its text where `after` follows: names go as far as they can, a
parenthesis behind a pseudo-class belongs to it, and no other character can be more than itself. -/
def Reads (after : List Char) : Outline → Prop
  | nil => True
  | backslash => after = []
  | char c rest => c ∉ structural ∧ rest.Reads after
  | escaped _ rest => rest.Reads after
  | quoted quote body rest =>
    (quote = '"' ∨ quote = '\'') ∧ StringBody quote body ∧ rest.Reads after
  | comma rest => rest.Reads after
  | dot name rest => LongestName name (rest.text ++ after) ∧ rest.Reads after
  | pseudo name rest => LongestName name (rest.text ++ after) ∧
      (rest.text ++ after).head? ≠ some '(' ∧ rest.Reads after
  | call name inside rest =>
    LongestName name ('(' :: (inside.text ++ ')' :: (rest.text ++ after))) ∧
      inside.Reads (')' :: (rest.text ++ after)) ∧ rest.Reads after
  | parens inside rest => inside.Reads (')' :: (rest.text ++ after)) ∧ rest.Reads after
  | brackets inside rest => inside.Reads (']' :: (rest.text ++ after)) ∧ rest.Reads after

end Outline

section Names

variable {m : NameMode} {c : Char} {cs ds name name' after after' : List Char}

theorem nameFrom_cons (m : NameMode) (c : Char) :
    (∃ m', (c ≠ '\\' → m' ≠ .escape 0) ∧
        ∀ cs, nameFrom m (c :: cs) = (c :: (nameFrom m' cs).1, (nameFrom m' cs).2)) ∨
      ∀ cs, nameFrom m (c :: cs) = ([], c :: cs) := by
  cases m with
  | between =>
    by_cases hbackslash : c = '\\'
    · refine .inl ⟨.escape 0, fun hne => absurd hbackslash hne, fun cs => ?_⟩
      rw [nameFrom, if_pos hbackslash]
    · by_cases hchar : isNameChar c = true
      · exact .inl ⟨.between, by simp, fun cs => by rw [nameFrom, if_neg hbackslash, if_pos hchar]⟩
      · exact .inr fun cs => by rw [nameFrom, if_neg hbackslash, if_neg hchar]
  | escape digits =>
    by_cases hdigit : digits < 6 ∧ (Identifier.hexValue? c).isSome = true
    · exact .inl ⟨.escape (digits + 1), by simp, fun cs => by rw [nameFrom, if_pos hdigit]⟩
    · by_cases hbehind : digits = 0 ∨ c = ' ' ∨ isNameChar c = true ∧ c ≠ '\\'
      · exact .inl ⟨.between, by simp, fun cs => by rw [nameFrom, if_neg hdigit, if_pos hbehind]⟩
      · by_cases hbackslash : c = '\\'
        · refine .inl ⟨.escape 0, fun hne => absurd hbackslash hne, fun cs => ?_⟩
          rw [nameFrom, if_neg hdigit, if_neg hbehind, if_pos hbackslash]
        · refine .inr fun cs => ?_
          rw [nameFrom, if_neg hdigit, if_neg hbehind, if_neg hbackslash]

theorem exists_nameFrom_append (h : nameFrom m cs = (cs, [])) (ds : List Char) :
    ∃ more, (nameFrom m (cs ++ ds)).1 = cs ++ more := by
  induction cs generalizing m with
  | nil => exact ⟨_, rfl⟩
  | cons c cs ih =>
    rcases nameFrom_cons m c with ⟨m', -, hm⟩ | hm
    · have hrest : nameFrom m' cs = (cs, []) := by
        rw [hm] at h
        simpa [Prod.ext_iff] using h
      obtain ⟨more, hmore⟩ := ih hrest
      exact ⟨more, by rw [List.cons_append, hm, hmore]; rfl⟩
    · rw [hm] at h
      cases h

theorem nameFrom_of_isPrefix (ds : List Char) (h : cs <+: (nameFrom m (cs ++ ds)).1) :
    nameFrom m cs = (cs, []) := by
  induction cs generalizing m with
  | nil => cases m <;> rfl
  | cons c cs ih =>
    rcases nameFrom_cons m c with ⟨m', -, hm⟩ | hm
    · rw [List.cons_append, hm] at h
      rw [hm, ih (List.cons_prefix_cons.1 h).2]
    · rw [List.cons_append, hm] at h
      cases List.prefix_nil.1 h

theorem nameFrom_of_append (h : nameFrom m (cs ++ ds) = (cs, ds)) : nameFrom m cs = (cs, []) := by
  apply nameFrom_of_isPrefix ds
  rw [h]

theorem Name.of_append (h : Name (cs ++ ds)) : Name cs := by
  apply nameFrom_eq_iff.1
  apply nameFrom_of_isPrefix ds
  rw [nameFrom_eq_iff.2 h]
  exact List.prefix_append cs ds

theorem name_nameFrom (cs : List Char) : Name (nameFrom .between cs).1 := by
  apply nameFrom_eq_iff.1
  apply nameFrom_of_append
  rw [nameFrom_append]

theorem longestName_iff :
    LongestName name after ↔ nameFrom .between (name ++ after) = (name, after) := by
  constructor
  · rintro ⟨hname, hlongest⟩
    have happend := nameFrom_append .between (name ++ after)
    obtain ⟨more, hmore⟩ := exists_nameFrom_append (nameFrom_eq_iff.2 hname) after
    rw [hmore, List.append_assoc] at happend
    have hafter := List.append_cancel_left happend
    have hnil : more = [] := by
      apply hlongest more _ hafter.symm
      rw [← hmore]
      exact name_nameFrom _
    subst hnil
    rw [List.append_nil] at hmore
    exact Prod.ext hmore hafter
  · intro h
    refine ⟨nameFrom_eq_iff.1 (nameFrom_of_append h), ?_⟩
    rintro more rest rfl hmore
    obtain ⟨further, hfurther⟩ := exists_nameFrom_append (nameFrom_eq_iff.2 hmore) rest
    rw [List.append_assoc, h, List.append_assoc] at hfurther
    have hlength := congrArg List.length hfurther
    simp only [List.length_append] at hlength
    exact List.eq_nil_of_length_eq_zero (by omega)

theorem LongestName.unique (h : LongestName name after) (h' : LongestName name' after')
    (he : name ++ after = name' ++ after') : name = name' ∧ after = after' := by
  have hread := longestName_iff.1 h
  rw [he, longestName_iff.1 h'] at hread
  exact ⟨(congrArg Prod.fst hread).symm, (congrArg Prod.snd hread).symm⟩

end Names

namespace Outline

variable {s t : Outline} {after after' : List Char}

def Stops (after : List Char) : Prop := ∀ c ∈ after.head?, c = ')' ∨ c = ']'

/-- What the first character of a text tells about the first piece. -/
inductive Mark where
  | ending
  | backslash
  | plain
  | quote
  | comma
  | dot
  | colon
  | opening
  | bracket

def markOf (text : List Char) : Mark :=
  match text.head? with
  | none => .ending
  | some c =>
    if c ∉ structural then .plain
    else if c = '\\' then .backslash
    else if c = ',' then .comma
    else if c = '.' then .dot
    else if c = ':' then .colon
    else if c = '(' then .opening
    else if c = '[' then .bracket
    else if c = '"' ∨ c = '\'' then .quote
    else .ending

def mark : Outline → Mark
  | nil => .ending
  | backslash => .backslash
  | char _ _ => .plain
  | escaped _ _ => .backslash
  | quoted _ _ _ => .quote
  | comma _ => .comma
  | dot _ _ => .dot
  | pseudo _ _ => .colon
  | call _ _ _ => .colon
  | parens _ _ => .opening
  | brackets _ _ => .bracket

theorem markOf_of_stops (h : Stops after) : markOf after = .ending := by
  cases after with
  | nil => rfl
  | cons c after => rcases h c rfl with rfl | rfl <;> rfl

theorem Reads.markOf_eq (h : t.Reads after) (hstop : Stops after) :
    markOf (t.text ++ after) = t.mark := by
  cases t with
  | nil => exact markOf_of_stops hstop
  | char c rest => exact if_pos h.1
  | quoted quote body rest => rcases h.1 with rfl | rfl <;> rfl
  | _ => rfl

theorem Reads.mark_eq (h : s.Reads after) (h' : t.Reads after') (hstop : Stops after)
    (hstop' : Stops after') (he : s.text ++ after = t.text ++ after') : s.mark = t.mark := by
  rw [← h.markOf_eq hstop, he, h'.markOf_eq hstop']

theorem stops_paren (after : List Char) : Stops (')' :: after) := by
  rintro c ⟨⟩
  exact .inl rfl

theorem stops_bracket (after : List Char) : Stops (']' :: after) := by
  rintro c ⟨⟩
  exact .inr rfl

theorem Reads.unique (h : s.Reads after) (h' : t.Reads after') (hstop : Stops after)
    (hstop' : Stops after') (he : s.text ++ after = t.text ++ after') : s = t ∧ after = after' := by
  -- The marks tell all pieces apart but a pseudo-class with parentheses from one without them.
  induction s generalizing t after after' with
  | nil =>
    cases t <;> cases h.mark_eq h' hstop hstop' he
    exact ⟨rfl, he⟩
  | backslash =>
    cases t <;> cases h.mark_eq h' hstop hstop' he
    · exact ⟨rfl, h.trans h'.symm⟩
    · obtain rfl : after = [] := h
      cases he
  | char c rest ih =>
    cases t <;> cases h.mark_eq h' hstop hstop' he
    next c' rest' =>
    obtain ⟨rfl, htail⟩ := List.cons.inj he
    obtain ⟨rfl, rfl⟩ := ih h.2 h'.2 hstop hstop' htail
    exact ⟨rfl, rfl⟩
  | escaped c rest ih =>
    cases t <;> cases h.mark_eq h' hstop hstop' he
    · obtain rfl : after' = [] := h'
      cases he
    · next c' rest' =>
      obtain ⟨rfl, htail⟩ := List.cons.inj (List.cons.inj he).2
      have hrest : rest.Reads after := h
      have hrest' : rest'.Reads after' := h'
      obtain ⟨rfl, rfl⟩ := ih hrest hrest' hstop hstop' htail
      exact ⟨rfl, rfl⟩
  | quoted quote body rest ih =>
    cases t <;> cases h.mark_eq h' hstop hstop' he
    next quote' body' rest' =>
    obtain ⟨hquote, hbody, hrest⟩ := h
    obtain ⟨-, hbody', hrest'⟩ := h'
    simp only [text, List.cons_append, List.append_assoc, List.cons.injEq] at he
    obtain ⟨rfl, he⟩ := he
    have hne : quote ≠ '\\' := by rcases hquote with rfl | rfl <;> decide
    obtain ⟨rfl, htail⟩ := hbody.inj hne hbody' he
    obtain ⟨rfl, rfl⟩ := ih hrest hrest' hstop hstop' htail
    exact ⟨rfl, rfl⟩
  | comma rest ih =>
    cases t <;> cases h.mark_eq h' hstop hstop' he
    next rest' =>
    have htail : rest.text ++ after = rest'.text ++ after' := (List.cons.inj he).2
    have hrest : rest.Reads after := h
    have hrest' : rest'.Reads after' := h'
    obtain ⟨rfl, rfl⟩ := ih hrest hrest' hstop hstop' htail
    exact ⟨rfl, rfl⟩
  | dot name rest ih =>
    cases t <;> cases h.mark_eq h' hstop hstop' he
    next name' rest' =>
    simp only [text, List.cons_append, List.append_assoc, List.cons.injEq, true_and] at he
    obtain ⟨rfl, htail⟩ := h.1.unique h'.1 he
    obtain ⟨rfl, rfl⟩ := ih h.2 h'.2 hstop hstop' htail
    exact ⟨rfl, rfl⟩
  | pseudo name rest ih =>
    cases t <;> cases h.mark_eq h' hstop hstop' he
    · next name' rest' =>
      simp only [text, List.cons_append, List.append_assoc, List.cons.injEq, true_and] at he
      obtain ⟨rfl, htail⟩ := h.1.unique h'.1 he
      obtain ⟨rfl, rfl⟩ := ih h.2.2 h'.2.2 hstop hstop' htail
      exact ⟨rfl, rfl⟩
    · next name' inside' rest' =>
      simp only [text, List.cons_append, List.append_assoc, List.cons.injEq, true_and] at he
      obtain ⟨-, htail⟩ := h.1.unique h'.1 he
      exact absurd (congrArg List.head? htail) h.2.1
  | call name inside rest ihInside ih =>
    cases t <;> cases h.mark_eq h' hstop hstop' he
    · next name' rest' =>
      simp only [text, List.cons_append, List.append_assoc, List.cons.injEq, true_and] at he
      obtain ⟨-, htail⟩ := h.1.unique h'.1 he
      exact absurd (congrArg List.head? htail).symm h'.2.1
    · next name' inside' rest' =>
      simp only [text, List.cons_append, List.append_assoc, List.cons.injEq, true_and] at he
      obtain ⟨hname, hinside, hrest⟩ := h
      obtain ⟨hname', hinside', hrest'⟩ := h'
      obtain ⟨rfl, hopen⟩ := hname.unique hname' he
      have hbody := (List.cons.inj hopen).2
      obtain ⟨rfl, hclose⟩ := ihInside hinside hinside' (stops_paren _) (stops_paren _) hbody
      have htail := (List.cons.inj hclose).2
      obtain ⟨rfl, rfl⟩ := ih hrest hrest' hstop hstop' htail
      exact ⟨rfl, rfl⟩
  | parens inside rest ihInside ih =>
    cases t <;> cases h.mark_eq h' hstop hstop' he
    next inside' rest' =>
    obtain ⟨hinside, hrest⟩ := h
    obtain ⟨hinside', hrest'⟩ := h'
    simp only [text, List.cons_append, List.append_assoc, List.cons.injEq, true_and] at he
    obtain ⟨rfl, hclose⟩ := ihInside hinside hinside' (stops_paren _) (stops_paren _) he
    have htail := (List.cons.inj hclose).2
    obtain ⟨rfl, rfl⟩ := ih hrest hrest' hstop hstop' htail
    exact ⟨rfl, rfl⟩
  | brackets inside rest ihInside ih =>
    cases t <;> cases h.mark_eq h' hstop hstop' he
    next inside' rest' =>
    obtain ⟨hinside, hrest⟩ := h
    obtain ⟨hinside', hrest'⟩ := h'
    simp only [text, List.cons_append, List.append_assoc, List.cons.injEq, true_and] at he
    obtain ⟨rfl, hclose⟩ := ihInside hinside hinside' (stops_bracket _) (stops_bracket _) he
    have htail := (List.cons.inj hclose).2
    obtain ⟨rfl, rfl⟩ := ih hrest hrest' hstop hstop' htail
    exact ⟨rfl, rfl⟩

end Outline

end CssModules.Selector
