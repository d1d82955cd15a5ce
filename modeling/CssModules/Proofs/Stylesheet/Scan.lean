import CssModules.Proofs.Stylesheet.Outline

namespace CssModules.Selector

def scopeOf? (name : List Char) : Option Bool :=
  if String.ofList (name.map Char.toLower) = "global" then some true
  else if String.ofList (name.map Char.toLower) = "local" then some false
  else none

section Scan

variable {isGlobal : Bool} {found : List (List Char)} {c : Char} {name cs ds : List Char}

/-- The characters that make a difference to the scan outside of names and parentheses that it
skips. -/
def noticed : List Char := [',', '[', ':', '.']

theorem noticed_subset : noticed ⊆ structural := by decide

theorem classesFrom_of_not_noticed (hc : c ∉ noticed) :
    classesFrom isGlobal found (c :: cs) = classesFrom isGlobal found cs := by
  simp only [noticed, List.mem_cons, List.not_mem_nil, or_false, not_or] at hc
  obtain ⟨hcomma, hbracket, hcolon, hdot⟩ := hc
  rw [classesFrom, if_neg hcomma, if_neg hbracket, if_neg hcolon, if_neg hdot]

theorem classesFrom_append_of_not_noticed (h : ∀ c ∈ ds, c ∉ noticed) :
    classesFrom isGlobal found (ds ++ cs) = classesFrom isGlobal found cs := by
  induction ds with
  | nil => rfl
  | cons d ds ih =>
    rw [List.cons_append, classesFrom_of_not_noticed (h d (List.mem_cons_self ..)),
      ih fun c hc => h c (List.mem_cons_of_mem _ hc)]

theorem classesFrom_comma :
    classesFrom isGlobal found (',' :: cs) = classesFrom false found cs := by
  rw [classesFrom, if_pos rfl]

theorem classesFrom_colon : classesFrom isGlobal found (':' :: cs) =
    classesFrom (pseudo isGlobal cs).1 found (pseudo isGlobal cs).2 := by
  rw [classesFrom, if_neg (by decide), if_neg (by decide), if_pos rfl]

theorem classesFrom_brackets (h : ']' ∉ ds) :
    classesFrom isGlobal found ('[' :: (ds ++ ']' :: cs)) = classesFrom isGlobal found cs := by
  have hskip : (ds ++ ']' :: cs).dropWhile (· != ']') = ']' :: cs := by
    rw [List.dropWhile_append_of_pos]
    · rfl
    · intro c hc
      exact bne_iff_ne.2 fun he => h (he ▸ hc)
  rw [classesFrom, if_neg (by decide), if_pos rfl, hskip]
  rfl

theorem eraseDups_concat {α : Type} [BEq α] [LawfulBEq α] (xs : List α) (x : α) :
    (xs ++ [x]).eraseDups =
      if xs.eraseDups.contains x then xs.eraseDups else xs.eraseDups ++ [x] := by
  rw [List.eraseDups_append]
  by_cases hmem : x ∈ xs
  · simp [List.removeAll, hmem]
  · simp [List.removeAll, hmem, List.eraseDups_cons]

instance : DecidablePred IsClass := fun name =>
  decidable_of_iff (nameFrom .between name = (name, []) ∧ isClassName name = true)
    (by rw [isClass_iff, nameFrom_eq_iff])

theorem classesFrom_dot (h : LongestName name cs) (names : List (List Char)) :
    classesFrom isGlobal names.eraseDups ('.' :: (name ++ cs)) =
      classesFrom isGlobal
        (names ++ (if isGlobal then [] else [name]).filter (IsClass ·)).eraseDups cs := by
  have hvalid : isClassName name = true ↔ IsClass name := by
    rw [isClass_iff]
    exact (and_iff_right h.1).symm
  rw [classesFrom, if_neg (by decide), if_neg (by decide), if_neg (by decide), if_pos rfl,
    longestName_iff.1 h]
  cases isGlobal with
  | true => simp
  | false =>
    by_cases hclass : IsClass name
    · by_cases hmem : name ∈ names <;> simp [hclass, hvalid, eraseDups_concat, hmem]
    · simp [hclass, hvalid]

theorem Name.isNameChar (h : Name name) (hbackslash : '\\' ∉ name) :
    ∀ c ∈ name, isNameChar c = true := by
  induction h with
  | nil => nofun
  | char hc _ ih =>
    rw [List.mem_cons, not_or] at hbackslash
    exact List.forall_mem_cons.2 ⟨hc, ih hbackslash.2⟩
  | _ => simp at hbackslash

theorem name_of_isNameChar (h : ∀ c ∈ name, isNameChar c = true) : Name name := by
  induction name with
  | nil => exact .nil
  | cons c name ih => exact .char (h c (List.mem_cons_self ..)) (ih (List.forall_mem_cons.1 h).2)

theorem LongestName.span (h : LongestName name cs) (hbackslash : '\\' ∉ name) :
    (name ++ cs).takeWhile isNameChar = name ∧ (name ++ cs).dropWhile isNameChar = cs := by
  obtain ⟨hname, hlongest⟩ := h
  have hchars := hname.isNameChar hbackslash
  have hhead : ∀ c ∈ cs.head?, isNameChar c = false := by
    intro c hc
    obtain ⟨rest, rfl⟩ := List.head?_eq_some_iff.1 hc
    by_contra hchar
    refine absurd (hlongest [c] rest rfl (name_of_isNameChar fun d hd => ?_)) (by simp)
    rcases List.mem_append.1 hd with hd | hd
    · exact hchars d hd
    · rw [List.mem_singleton.1 hd]
      simpa using hchar
  rw [List.takeWhile_append_of_pos hchars, List.dropWhile_append_of_pos hchars]
  cases cs with
  | nil => exact ⟨List.append_nil _, rfl⟩
  | cons c cs => simp [hhead c rfl]

theorem pseudo_bare (h : LongestName name cs) (hbackslash : '\\' ∉ name)
    (hopen : cs.head? ≠ some '(') :
    pseudo isGlobal (name ++ cs) = ((scopeOf? name).getD isGlobal, cs) := by
  obtain ⟨htake, hdrop⟩ := h.span hbackslash
  rw [pseudo, htake, hdrop, scopeOf?]
  split
  · exact absurd rfl hopen
  · next hname _ => rw [if_pos hname, Option.getD_some]
  · exact absurd rfl hopen
  · next hname _ => rw [if_neg (by simp [hname]), if_pos hname, Option.getD_some]
  · next hglobal hlocal _ _ => rw [if_neg hglobal, if_neg hlocal, Option.getD_none]

theorem pseudo_call (h : LongestName name ('(' :: cs)) (hbackslash : '\\' ∉ name) :
    pseudo isGlobal (name ++ '(' :: cs) =
      (isGlobal, match scopeOf? name with
        | some true => skipParens 1 cs
        | some false => cs
        | none => '(' :: cs) := by
  obtain ⟨htake, hdrop⟩ := h.span hbackslash
  rw [pseudo, htake, hdrop, scopeOf?]
  split
  · next hname _ =>
    rw [if_pos hname, skipParens, if_pos rfl]
  · next hopen => exact absurd rfl (hopen cs)
  · next hname he =>
    rw [if_neg (by simp [hname]), if_pos hname, (List.cons.inj he).2]
  · next hopen => exact absurd rfl (hopen cs)
  · next hglobal hlocal _ _ => rw [if_neg hglobal, if_neg hlocal]

theorem skipParens_cons {depth : Nat} (hopen : c ≠ '(') (hclose : c ≠ ')') :
    skipParens depth (c :: cs) = skipParens depth cs := by
  rw [skipParens, if_neg hopen, if_neg hclose]

theorem skipParens_append {depth : Nat} (hopen : '(' ∉ ds) (hclose : ')' ∉ ds) :
    skipParens depth (ds ++ cs) = skipParens depth cs := by
  induction ds with
  | nil => rfl
  | cons d ds ih =>
    rw [List.mem_cons, not_or] at hopen hclose
    rw [List.cons_append, skipParens_cons (Ne.symm hopen.1) (Ne.symm hclose.1),
      ih hopen.2 hclose.2]

theorem skipParens_opening (depth : Nat) :
    skipParens depth ('(' :: cs) = skipParens (depth + 1) cs := by
  rw [skipParens, if_pos rfl]

theorem skipParens_closing (depth : Nat) :
    skipParens (depth + 2) (')' :: cs) = skipParens (depth + 1) cs := by
  rw [skipParens, if_neg (by decide), if_pos rfl, if_neg (by omega)]
  rfl

theorem skipParens_closing_last : skipParens 1 (')' :: cs) = cs := by
  rw [skipParens, if_neg (by decide), if_pos rfl, if_pos (Nat.le_refl 1)]

theorem skipParens_suffix (depth : Nat) (cs : List Char) : skipParens depth cs <:+ cs := by
  induction cs generalizing depth with
  | nil => exact List.suffix_rfl
  | cons c cs ih =>
    rw [skipParens]
    split
    · exact (ih _).trans (List.suffix_cons c cs)
    · split
      · split
        · exact List.suffix_cons c cs
        · exact (ih _).trans (List.suffix_cons c cs)
      · exact (ih _).trans (List.suffix_cons c cs)

theorem pseudo_suffix (isGlobal : Bool) (cs : List Char) : (pseudo isGlobal cs).2 <:+ cs := by
  have hrest := List.dropWhile_suffix isNameChar (l := cs)
  rw [pseudo]
  split
  · exact (skipParens_suffix 0 _).trans hrest
  · exact hrest
  · next hopen =>
    rw [hopen] at hrest
    exact (List.suffix_cons _ _).trans hrest
  · exact hrest
  · exact hrest

theorem mem_classesFrom (h : name ∈ classesFrom isGlobal found cs) :
    name ∈ found ∨ IsClass name ∧ '.' :: name <:+: cs := by
  have behind {cs ds : List Char} (hsuffix : ds <:+ cs) {p q : Prop}
      (h : p ∨ q ∧ '.' :: name <:+: ds) : p ∨ q ∧ '.' :: name <:+: cs :=
    h.imp_right (And.imp_right (·.trans hsuffix.isInfix))
  fun_induction classesFrom isGlobal found cs with
  | case1 => exact .inl h
  | case2 _ _ cs ih => exact behind (List.suffix_cons ',' cs) (ih h)
  | case3 _ _ cs _ ih =>
    refine behind ?_ (ih h)
    exact ((List.drop_suffix 1 _).trans (List.dropWhile_suffix _)).trans (List.suffix_cons '[' cs)
  | case4 isGlobal _ cs _ _ ih =>
    exact behind ((pseudo_suffix isGlobal cs).trans (List.suffix_cons ':' cs)) (ih h)
  | case5 isGlobal before cs read found _ _ _ ih =>
    have happend : read ++ (nameFrom .between cs).2 = cs := nameFrom_append .between cs
    have hsuffix : (nameFrom .between cs).2 <:+ '.' :: cs :=
      List.IsSuffix.trans ⟨read, happend⟩ (List.suffix_cons '.' cs)
    rcases behind hsuffix (ih h) with hmem | hmem
    · dsimp only [found] at hmem
      split at hmem
      · next hnew =>
        rcases List.mem_append.1 hmem with hmem | hmem
        · exact .inl hmem
        · simp only [Bool.and_eq_true] at hnew
          rw [List.mem_singleton.1 hmem]
          have hprefix : '.' :: read <+: '.' :: cs := ⟨(nameFrom .between cs).2, congrArg _ happend⟩
          exact .inr ⟨isClass_iff.2 ⟨name_nameFrom cs, hnew.1.2⟩, hprefix.isInfix⟩
      · exact .inl hmem
    · exact .inr hmem
  | case6 _ _ c cs _ _ _ _ ih => exact behind (List.suffix_cons c cs) (ih h)

theorem nodup_classesFrom (h : found.Nodup) : (classesFrom isGlobal found cs).Nodup := by
  fun_induction classesFrom isGlobal found cs with
  | case1 => exact h
  | case2 _ _ _ ih => exact ih h
  | case3 _ _ _ _ ih => exact ih h
  | case4 _ _ _ _ _ ih => exact ih h
  | case5 _ before _ read found _ _ _ ih =>
    refine ih ?_
    dsimp only [found]
    split
    · next hnew =>
      simp only [Bool.and_eq_true, Bool.not_eq_true', List.contains_eq_mem,
        decide_eq_false_iff_not] at hnew
      exact List.nodup_append.2 ⟨h, List.pairwise_singleton _ _, fun c hc d hd hcd =>
        hnew.2 (List.mem_singleton.1 hd ▸ hcd ▸ hc)⟩
    · exact h
  | case6 _ _ _ _ _ _ _ _ ih => exact ih h

end Scan

end CssModules.Selector
