import CssModules.Proofs.Stylesheet.Outline

namespace CssModules.Selector

open Stylesheet (StringBody)

/-- A text whose strings, parentheses and brackets are closed. It may end with a backslash if it is
the last, with nothing behind it. -/
inductive Closed : (last : Bool) → List Char → Prop where
  | nil {last : Bool} : Closed last []
  | char {last : Bool} {c : Char} {cs : List Char} (hc : c ∉ delimiters) (hbackslash : c ≠ '\\')
      (rest : Closed last cs) : Closed last (c :: cs)
  | pair {last : Bool} {c : Char} {cs : List Char} (rest : Closed last cs) :
      Closed last ('\\' :: c :: cs)
  | backslash : Closed true ['\\']
  | string {last : Bool} {quote : Char} {body cs : List Char} (hquote : quote = '"' ∨ quote = '\'')
      (hbody : StringBody quote body) (rest : Closed last cs) :
      Closed last (quote :: (body ++ quote :: cs))
  | parens {last : Bool} {ds cs : List Char} (inside : Closed false ds) (rest : Closed last cs) :
      Closed last ('(' :: (ds ++ ')' :: cs))
  | brackets {last : Bool} {ds cs : List Char} (inside : Closed false ds) (rest : Closed last cs) :
      Closed last ('[' :: (ds ++ ']' :: cs))

variable {m : NameMode} {last : Bool} {c : Char} {cs ds after : List Char}

theorem nameFrom_delimiter (hm : m ≠ .escape 0) (hc : c ∈ delimiters) (cs : List Char) :
    nameFrom m (c :: cs) = ([], c :: cs) := by
  have hchar : c ≠ '\\' ∧ c ≠ ' ' ∧ Identifier.hexValue? c = none ∧ isNameChar c = false := by
    simp only [delimiters, List.mem_cons, List.not_mem_nil, or_false] at hc
    rcases hc with rfl | rfl | rfl | rfl | rfl | rfl <;> decide
  obtain ⟨hbackslash, hspace, hhex, hname⟩ := hchar
  cases m with
  | between => simp [nameFrom, hbackslash, hname]
  | escape digits =>
    have hdigits : digits ≠ 0 := fun he => hm (congrArg _ he)
    simp [nameFrom, hhex, hname, hspace, hbackslash, hdigits]

theorem nameFrom_escaped (c : Char) : ∃ m, m ≠ NameMode.escape 0 ∧
    ∀ cs, nameFrom (.escape 0) (c :: cs) = (c :: (nameFrom m cs).1, (nameFrom m cs).2) := by
  by_cases hhex : (Identifier.hexValue? c).isSome = true
  · exact ⟨.escape 1, by simp, fun cs => by rw [nameFrom, if_pos ⟨by omega, hhex⟩]⟩
  · exact ⟨.between, by simp, fun cs => by rw [nameFrom, if_neg (by simp [hhex]), if_pos (.inl rfl)]⟩

theorem nameFrom_stops (hm : m ≠ .escape 0) (hstop : Outline.Stops after) :
    nameFrom m after = ([], after) := by
  cases after with
  | nil => cases m <;> rfl
  | cons c after =>
    apply nameFrom_delimiter hm
    rcases hstop c rfl with rfl | rfl <;> decide

theorem Closed.nameFrom_eq (h : Closed last cs) (hlast : last = true → after = [])
    (hstop : Outline.Stops after) (hm : m ≠ .escape 0) :
    ∃ name rest, cs = name ++ rest ∧ nameFrom m (cs ++ after) = (name, rest ++ after) ∧
      Closed last rest := by
  induction h generalizing m with
  | nil => exact ⟨[], [], rfl, nameFrom_stops hm hstop, .nil⟩
  | @char _ c cs hc hbackslash hrest ih =>
    rcases nameFrom_cons m c with ⟨m', hm', hread⟩ | hread
    · obtain ⟨name, rest, rfl, he, hclosed⟩ := ih hlast (hm' hbackslash)
      exact ⟨c :: name, rest, rfl, by rw [List.cons_append, hread, he], hclosed⟩
    · exact ⟨[], c :: cs, rfl, hread _, .char hc hbackslash hrest⟩
  | @pair _ c cs hrest ih =>
    obtain ⟨m', hm', hread⟩ := nameFrom_escaped c
    obtain ⟨name, rest, rfl, he, hclosed⟩ := ih hlast hm'
    refine ⟨'\\' :: c :: name, rest, rfl, ?_, hclosed⟩
    rw [List.cons_append, List.cons_append, nameFrom_backslash hm, hread, he]
  | backslash =>
    obtain rfl := hlast rfl
    exact ⟨['\\'], [], rfl, by rw [List.append_nil, nameFrom_backslash hm]; rfl, .nil⟩
  | @string _ quote body cs hquote hbody hrest =>
    refine ⟨[], _, rfl, nameFrom_delimiter hm ?_ _, .string hquote hbody hrest⟩
    rcases hquote with rfl | rfl <;> decide
  | parens hinside hrest =>
    exact ⟨[], _, rfl, nameFrom_delimiter hm (by decide) _, .parens hinside hrest⟩
  | brackets hinside hrest =>
    exact ⟨[], _, rfl, nameFrom_delimiter hm (by decide) _, .brackets hinside hrest⟩

theorem Closed.exists_name (h : Closed last cs) (hlast : last = true → after = [])
    (hstop : Outline.Stops after) :
    ∃ name rest, cs = name ++ rest ∧ LongestName name (rest ++ after) ∧ Closed last rest := by
  obtain ⟨name, rest, rfl, he, hclosed⟩ :=
    h.nameFrom_eq hlast hstop (m := .between) nofun
  refine ⟨name, rest, rfl, longestName_iff.2 ?_, hclosed⟩
  rw [← List.append_assoc, he]

theorem Closed.of_head? (h : Closed last cs) (hstop : Outline.Stops after)
    (hhead : (cs ++ after).head? = some '(') :
    ∃ ds es, cs = '(' :: (ds ++ ')' :: es) ∧ Closed false ds ∧ Closed last es := by
  cases h with
  | nil => rcases hstop _ hhead with h | h <;> cases h
  | char hc =>
    cases hhead
    exact absurd hc (by decide)
  | string hquote =>
    cases hhead
    rcases hquote with h | h <;> cases h
  | parens hinside hrest => exact ⟨_, _, rfl, hinside, hrest⟩
  | pair => cases hhead
  | backslash => cases hhead
  | brackets => cases hhead

theorem Closed.append_name {name : List Char} (h : Closed last cs)
    (hlast : after = [] → last = true)
    (hread : nameFrom m (name ++ (cs ++ after)) = (name, cs ++ after)) :
    Closed last (if m = .escape 0 then '\\' :: (name ++ cs) else name ++ cs) := by
  induction name generalizing m with
  | nil =>
    split
    · next hm =>
      subst hm
      cases hrest : cs ++ after with
      | nil =>
        obtain ⟨rfl, hafter⟩ := List.append_eq_nil_iff.1 hrest
        rw [hlast hafter]
        exact .backslash
      | cons c rest =>
        obtain ⟨m', -, hescaped⟩ := nameFrom_escaped c
        rw [List.nil_append, hrest, hescaped] at hread
        cases congrArg Prod.fst hread
    · exact h
  | cons c name ih =>
    rw [List.cons_append] at hread
    split
    · next hm =>
      subst hm
      obtain ⟨m', hm', hstep⟩ := nameFrom_escaped c
      have hclosed := ih (by simpa [hstep, Prod.ext_iff] using hread)
      rw [if_neg hm'] at hclosed
      exact .pair hclosed
    · next hm =>
      by_cases hbackslash : c = '\\'
      · subst hbackslash
        have hclosed := ih (m := .escape 0)
          (by simpa [nameFrom_backslash hm, Prod.ext_iff] using hread)
        rwa [if_pos rfl] at hclosed
      · rcases nameFrom_cons m c with ⟨m', hm', hstep⟩ | hstep
        · have hclosed := ih (by simpa [hstep, Prod.ext_iff] using hread)
          rw [if_neg (hm' hbackslash)] at hclosed
          refine .char (fun hc => ?_) hbackslash hclosed
          rw [nameFrom_delimiter hm hc] at hread
          cases congrArg Prod.fst hread
        · rw [hstep] at hread
          cases congrArg Prod.fst hread

theorem Closed.append_longestName {name : List Char} (h : Closed last cs)
    (hlast : after = [] → last = true) (hname : LongestName name (cs ++ after)) :
    Closed last (name ++ cs) :=
  h.append_name hlast (m := .between) (longestName_iff.1 hname)

theorem length_lt_enclosed (c d : Char) (ds cs : List Char) :
    ds.length < (c :: (ds ++ d :: cs)).length ∧ cs.length < (c :: (ds ++ d :: cs)).length := by
  simp only [List.length_cons, List.length_append]
  omega

namespace Outline

theorem exists_reads (h : Closed last cs) (hlast : last = true → after = []) (hstop : Stops after) :
    ∃ s : Outline, s.text = cs ∧ s.Reads after := by
  -- Names take several characters at once, so the induction is on the length.
  induction hn : cs.length using Nat.strong_induction_on generalizing last cs after with
  | _ n ih =>
    subst hn
    cases h with
    | nil => exact ⟨.nil, rfl, trivial⟩
    | backslash => exact ⟨.backslash, rfl, hlast rfl⟩
    | @char _ c cs hc hbackslash hrest =>
      have hrestLength : cs.length < (c :: cs).length := Nat.lt_succ_self _
      by_cases hplain : c ∈ structural
      · have hc : c = '.' ∨ c = ',' ∨ c = ':' := by
          simpa [structural, hc, hbackslash] using hplain
        obtain ⟨name, rest, rfl, hname, hclosed⟩ := hrest.exists_name hlast hstop
        have hlength : rest.length < (c :: (name ++ rest)).length :=
          Nat.lt_succ_of_le (List.suffix_append name rest).length_le
        rcases hc with rfl | rfl | rfl
        · obtain ⟨s, rfl, hs⟩ := ih rest.length hlength hclosed hlast hstop rfl
          exact ⟨.dot name s, rfl, hname, hs⟩
        · obtain ⟨s, he, hs⟩ := ih _ hrestLength hrest hlast hstop rfl
          exact ⟨.comma s, congrArg _ he, hs⟩
        · by_cases hopen :
              ∃ ds cs, rest = '(' :: (ds ++ ')' :: cs) ∧ Closed false ds ∧ Closed last cs
          · obtain ⟨ds, cs, rfl, hinside, hrest⟩ := hopen
            obtain ⟨hds, hcs⟩ := length_lt_enclosed '(' ')' ds cs
            obtain ⟨s, rfl, hs⟩ := ih _ (hcs.trans hlength) hrest hlast hstop rfl
            obtain ⟨t, rfl, ht⟩ := ih _ (hds.trans hlength) hinside nofun (stops_paren _) rfl
            refine ⟨.call name t s, rfl, ?_, ht, hs⟩
            simpa using hname
          · obtain ⟨s, rfl, hs⟩ := ih rest.length hlength hclosed hlast hstop rfl
            refine ⟨.pseudo name s, rfl, hname, fun hhead => hopen ?_, hs⟩
            exact hclosed.of_head? hstop hhead
      · obtain ⟨s, rfl, hs⟩ := ih _ hrestLength hrest hlast hstop rfl
        exact ⟨.char c s, rfl, hplain, hs⟩
    | @pair _ c cs hrest =>
      have hlength : cs.length < ('\\' :: c :: cs).length := by
        simp only [List.length_cons]
        omega
      obtain ⟨s, rfl, hs⟩ := ih _ hlength hrest hlast hstop rfl
      exact ⟨.escaped c s, rfl, hs⟩
    | @string _ quote body cs hquote hbody hrest =>
      obtain ⟨s, rfl, hs⟩ := ih _ (length_lt_enclosed ..).2 hrest hlast hstop rfl
      exact ⟨.quoted quote body s, rfl, hquote, hbody, hs⟩
    | @parens _ ds cs hinside hrest =>
      obtain ⟨hds, hcs⟩ := length_lt_enclosed '(' ')' ds cs
      obtain ⟨s, rfl, hs⟩ := ih _ hcs hrest hlast hstop rfl
      obtain ⟨t, rfl, ht⟩ := ih _ hds hinside nofun (stops_paren _) rfl
      exact ⟨.parens t s, rfl, ht, hs⟩
    | @brackets _ ds cs hinside hrest =>
      obtain ⟨hds, hcs⟩ := length_lt_enclosed '[' ']' ds cs
      obtain ⟨s, rfl, hs⟩ := ih _ hcs hrest hlast hstop rfl
      obtain ⟨t, rfl, ht⟩ := ih _ hds hinside nofun (stops_bracket _) rfl
      exact ⟨.brackets t s, rfl, ht, hs⟩

theorem Reads.closed {s : Outline} (h : s.Reads after) (hlast : after = [] → last = true) :
    Closed last s.text := by
  induction s generalizing last after with
  | nil => exact .nil
  | backslash =>
    rw [hlast h]
    exact .backslash
  | char c rest ih =>
    obtain ⟨hc, hrest⟩ := h
    rw [structural, List.mem_append, not_or] at hc
    refine .char hc.1 ?_ (ih hrest hlast)
    rintro rfl
    exact hc.2 (by decide)
  | escaped c rest ih => exact .pair (ih h hlast)
  | quoted quote body rest ih => exact .string h.1 h.2.1 (ih h.2.2 hlast)
  | comma rest ih => exact .char (by decide) (by decide) (ih h hlast)
  | dot name rest ih =>
    exact .char (by decide) (by decide) ((ih h.2 hlast).append_longestName hlast h.1)
  | pseudo name rest ih =>
    exact .char (by decide) (by decide) ((ih h.2.2 hlast).append_longestName hlast h.1)
  | call name inside rest ihInside ih =>
    obtain ⟨hname, hinside, hrest⟩ := h
    have hparens := Closed.parens (ihInside hinside nofun) (ih hrest hlast)
    refine .char (by decide) (by decide) (hparens.append_longestName hlast ?_)
    simpa using hname
  | parens inside rest ihInside ih => exact .parens (ihInside h.1 nofun) (ih h.2 hlast)
  | brackets inside rest ihInside ih => exact .brackets (ihInside h.1 nofun) (ih h.2 hlast)

/-- A closed text has one outline. -/
theorem existsUnique_reads (h : Closed true cs) : ∃! s : Outline, s.text = cs ∧ s.Reads [] := by
  have hstop : Stops [] := nofun
  obtain ⟨s, rfl, hs⟩ := exists_reads h (fun _ => rfl) hstop
  refine ⟨s, ⟨rfl, hs⟩, fun t ⟨he, ht⟩ => ?_⟩
  exact (ht.unique hs hstop hstop (by rw [he])).1

end Outline

end CssModules.Selector
