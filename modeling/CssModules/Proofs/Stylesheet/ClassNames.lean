import CssModules.Proofs.Identifier.Grammar
import CssModules.Stylesheet.Selector
import Mathlib.Data.List.Infix

namespace CssModules.Selector

open Identifier (hexValue?)

/-- A name as it is written: name characters and escapes. An escape is a backslash with one to six
hex digits, and perhaps a blank, or with any other character; at the end of the text it may stand
alone. -/
inductive Name : List Char → Prop where
  | nil : Name []
  | char {c : Char} {cs : List Char} (hc : isNameChar c = true) (rest : Name cs) : Name (c :: cs)
  | symbol {c : Char} {cs : List Char} (hc : hexValue? c = none) (rest : Name cs) :
      Name ('\\' :: c :: cs)
  | hex {digits cs : List Char} (hne : digits ≠ []) (hlength : digits.length ≤ 6)
      (hdigits : ∀ d ∈ digits, (hexValue? d).isSome = true) (rest : Name cs) :
      Name ('\\' :: digits ++ cs)
  | hexBlank {digits cs : List Char} (hne : digits ≠ []) (hlength : digits.length ≤ 6)
      (hdigits : ∀ d ∈ digits, (hexValue? d).isSome = true) (rest : Name cs) :
      Name ('\\' :: digits ++ ' ' :: cs)
  | backslash : Name ['\\']

variable {c : Char} {cs digits found : List Char} {k : Nat}

theorem isNameChar_eq (c : Char) : isNameChar c = Identifier.isNameChar c := by
  have hlist : c.isAlphanum = (c.isAlpha || c.isDigit) := rfl
  rw [isNameChar, Identifier.isNameChar, Identifier.isNameStart, hlist]
  cases c.isAlpha <;> cases c.isDigit <;> cases c == '-' <;> cases c == '_' <;>
    cases decide (128 ≤ c.toNat) <;> rfl

theorem name_of_isName (h : Identifier.IsName cs) (hl : ∀ c ∈ cs, Identifier.isLayout c = false) :
    Name cs := by
  induction h with
  | nil => exact .nil
  | @plain c cs hc _ ih =>
    rw [← isNameChar_eq] at hc
    exact .char hc (ih (List.forall_mem_cons.1 hl).2)
  | @escape e cs he _ ih =>
    obtain ⟨hle, hlcs⟩ := List.forall_mem_append.1 hl
    have hcs := ih hlcs
    cases he with
    | literal _ hx => exact .symbol hx hcs
    | @hex digits terminator hne hlength hdigits ht =>
      have hlt : ∀ c ∈ terminator, Identifier.isLayout c = false := by
        intro c hc
        exact hle c (by simp [hc])
      rw [List.cons_append, List.append_assoc]
      rcases Identifier.eq_of_mem_terminators ht hlt with rfl | rfl
      · exact .hex hne hlength hdigits hcs
      · exact .hexBlank hne hlength hdigits hcs

theorem isNameChar_backslash : isNameChar '\\' = false := by decide

theorem nameFrom_digits (hdigits : ∀ d ∈ digits, (hexValue? d).isSome = true)
    (hlength : k + digits.length ≤ 6) :
    nameFrom (.escape k) (digits ++ cs) =
      (digits ++ (nameFrom (.escape (k + digits.length)) cs).1,
        (nameFrom (.escape (k + digits.length)) cs).2) := by
  induction digits generalizing k with
  | nil => rfl
  | cons d digits ih =>
    have hd := hdigits d (List.mem_cons_self ..)
    rw [List.length_cons] at hlength
    rw [List.cons_append, nameFrom, if_pos ⟨by omega, hd⟩,
      ih (fun e he => hdigits e (List.mem_cons_of_mem _ he)) (by omega), List.length_cons,
      Nat.add_right_comm, Nat.add_assoc]
    rfl

theorem nameFrom_backslash {m : NameMode} (hm : m ≠ .escape 0) (cs : List Char) :
    nameFrom m ('\\' :: cs) =
      ('\\' :: (nameFrom (.escape 0) cs).1, (nameFrom (.escape 0) cs).2) := by
  cases m with
  | between => rfl
  | escape k =>
    have hk : k ≠ 0 := fun hk => hm (congrArg _ hk)
    have hhex : ¬(k < 6 ∧ (hexValue? '\\').isSome = true) := by
      simp [Identifier.hexValue?_backslash]
    have hbehind : ¬(k = 0 ∨ '\\' = ' ' ∨ isNameChar '\\' = true ∧ '\\' ≠ '\\') := by
      simp [hk]
    rw [nameFrom, if_neg hhex, if_neg hbehind, if_pos rfl]

theorem nameFrom_blank {k : Nat} (cs : List Char) :
    nameFrom (.escape k) (' ' :: cs) =
      (' ' :: (nameFrom .between cs).1, (nameFrom .between cs).2) := by
  rw [nameFrom, if_neg (by simp [Identifier.hexValue?_space]), if_pos (.inr (.inl rfl))]

theorem Name.nameFrom_eq (h : Name cs) {m : NameMode} (hm : m ≠ .escape 0) :
    nameFrom m cs = (cs, []) := by
  have hbetween : NameMode.between ≠ .escape 0 := nofun
  induction h generalizing m with
  | nil => cases m <;> rfl
  | @char c cs hc _ ih =>
    have hne : c ≠ '\\' := by
      rintro rfl
      rw [isNameChar_backslash] at hc
      cases hc
    cases m with
    | between => rw [nameFrom, if_neg hne, if_pos hc, ih hbetween]
    | escape k =>
      rw [nameFrom]
      split
      · rw [ih (m := .escape (k + 1)) (by simp)]
      · rw [if_pos (.inr (.inr ⟨hc, hne⟩)), ih hbetween]
  | @symbol c cs hc _ ih =>
    rw [nameFrom_backslash hm, nameFrom, if_neg (by simp [hc]), if_pos (.inl rfl), ih hbetween]
  | @hex digits cs hne hlength hdigits _ ih =>
    rw [List.cons_append, nameFrom_backslash hm, nameFrom_digits hdigits (by omega),
      ih (m := .escape (0 + digits.length)) (by simpa using hne)]
  | @hexBlank digits cs hne hlength hdigits _ ih =>
    rw [List.cons_append, nameFrom_backslash hm, nameFrom_digits hdigits (by omega), nameFrom_blank,
      ih hbetween]
  | backslash =>
    rw [nameFrom_backslash hm]
    rfl

-- Both modes at once: behind an escape a name goes on as from its start, and `digits` are what the
-- escape that is being read has had so far.
theorem name_of_nameFrom :
    (nameFrom .between cs = (cs, []) → Name cs) ∧
      ∀ digits : List Char, (∀ d ∈ digits, (hexValue? d).isSome = true) → digits.length ≤ 6 →
        nameFrom (.escape digits.length) cs = (cs, []) → Name ('\\' :: digits ++ cs) := by
  have rest {c : Char} {cs : List Char} {r : List Char × List Char}
      (h : (c :: r.1, r.2) = (c :: cs, [])) : r = (cs, []) := by
    simpa [Prod.ext_iff] using h
  induction cs with
  | nil =>
    refine ⟨fun _ => .nil, fun digits hdigits hlength _ => ?_⟩
    cases digits with
    | nil => exact .backslash
    | cons d digits => exact .hex (List.cons_ne_nil d digits) hlength hdigits .nil
  | cons c cs ih =>
    obtain ⟨ihBetween, ihEscape⟩ := ih
    have hstart (h : nameFrom (.escape 0) cs = (cs, [])) : Name ('\\' :: cs) :=
      ihEscape [] (by simp) (by simp) h
    constructor
    · intro h
      rw [nameFrom] at h
      split at h
      · next hc =>
        rw [hc]
        exact hstart (rest h)
      · split at h
        · next hc => exact .char hc (ihBetween (rest h))
        · cases congrArg Prod.fst h
    · intro digits hdigits hlength h
      rw [nameFrom] at h
      split at h
      · next hc =>
        have hmore : ∀ d ∈ digits ++ [c], (hexValue? d).isSome = true := by
          intro d hd
          rcases List.mem_append.1 hd with hd | hd
          · exact hdigits d hd
          · rw [List.mem_singleton.1 hd]
            exact hc.2
        have hname := ihEscape (digits ++ [c]) hmore (by simp; omega) (by simpa using rest h)
        simpa using hname
      · next hhex =>
        by_cases hnil : digits = []
        · subst hnil
          rw [if_pos (.inl rfl)] at h
          exact .symbol (by simpa using hhex) (ihBetween (rest h))
        · split at h
          · next hc =>
            rcases hc with hc | rfl | ⟨hc, -⟩
            · exact absurd (List.length_eq_zero_iff.1 hc) hnil
            · exact .hexBlank hnil hlength hdigits (ihBetween (rest h))
            · exact .hex hnil hlength hdigits (.char hc (ihBetween (rest h)))
          · split at h
            · next hc =>
              rw [hc]
              exact .hex hnil hlength hdigits (hstart (rest h))
            · cases congrArg Prod.fst h

theorem nameFrom_eq_iff : nameFrom .between cs = (cs, []) ↔ Name cs :=
  ⟨name_of_nameFrom.1, fun h => h.nameFrom_eq nofun⟩

theorem nameFrom_append (m : NameMode) (cs : List Char) :
    (nameFrom m cs).1 ++ (nameFrom m cs).2 = cs := by
  induction cs generalizing m with
  | nil => cases m <;> rfl
  | cons c cs ih =>
    cases m with
    | between =>
      rw [nameFrom]
      split
      · exact congrArg (c :: ·) (ih _)
      · split
        · exact congrArg (c :: ·) (ih _)
        · rfl
    | escape k =>
      rw [nameFrom]
      split
      · exact congrArg (c :: ·) (ih _)
      · split
        · exact congrArg (c :: ·) (ih _)
        · split
          · exact congrArg (c :: ·) (ih _)
          · rfl

theorem classesFrom_cons (isGlobal : Bool) (found : List (List Char)) (c : Char) (cs : List Char) :
    ∃ isGlobal' found' cs',
      classesFrom isGlobal found (c :: cs) = classesFrom isGlobal' found' cs' ∧
        cs'.length ≤ cs.length ∧ found <+: found' ∧
          ∀ name ∈ found', name ∈ found ∨ name.length ≤ cs.length := by
  rw [classesFrom]
  split
  · exact ⟨_, _, _, rfl, Nat.le_refl _, List.prefix_rfl, fun _ => .inl⟩
  · split
    · refine ⟨_, _, _, rfl, ?_, List.prefix_rfl, fun _ => .inl⟩
      exact (List.drop_suffix 1 _).length_le.trans (length_dropWhile_le _ cs)
    · split
      · exact ⟨_, _, _, rfl, length_pseudo isGlobal cs, List.prefix_rfl, fun _ => .inl⟩
      · split
        · refine ⟨_, _, _, rfl, length_nameFrom .between cs, ?_⟩
          split
          · refine ⟨List.prefix_append .., fun name hname => ?_⟩
            rcases List.mem_append.1 hname with hname | hname
            · exact .inl hname
            · have hlength := congrArg List.length (nameFrom_append .between cs)
              rw [List.length_append] at hlength
              rw [List.mem_singleton.1 hname]
              exact .inr (by omega)
          · exact ⟨List.prefix_rfl, fun _ => .inl⟩
        · exact ⟨_, _, _, rfl, Nat.le_refl _, List.prefix_rfl, fun _ => .inl⟩

theorem classesFrom_bounds (isGlobal : Bool) (found : List (List Char)) (cs : List Char) :
    found <+: classesFrom isGlobal found cs ∧
      ∀ name ∈ classesFrom isGlobal found cs, name ∈ found ∨ name.length < cs.length := by
  induction hn : cs.length using Nat.strong_induction_on generalizing isGlobal found cs with
  | _ n ih =>
    subst hn
    cases cs with
    | nil =>
      rw [classesFrom]
      exact ⟨List.prefix_rfl, fun _ => .inl⟩
    | cons c cs =>
      obtain ⟨isGlobal', found', cs', he, hlength, hkept, hnew⟩ :=
        classesFrom_cons isGlobal found c cs
      obtain ⟨hfound, hshort⟩ := ih cs'.length (Nat.lt_succ_of_le hlength) isGlobal' found' cs' rfl
      rw [he, List.length_cons]
      refine ⟨hkept.trans hfound, fun name hname => ?_⟩
      rcases hshort name hname with hname | hlt
      · exact (hnew name hname).imp_right Nat.lt_succ_of_le
      · exact .inr (by omega)

/-- Whether a class can have this name: it does not start like a number, and is no lone dash. -/
def IsClass (name : List Char) : Prop :=
  Name name ∧ name ≠ [] ∧ name ≠ ['-'] ∧
    ∀ d rest, d.isDigit = true → name ≠ d :: rest ∧ name ≠ '-' :: d :: rest

theorem isClass_iff {name : List Char} : IsClass name ↔ Name name ∧ isClassName name = true := by
  refine and_congr_right fun hname => ?_
  clear hname
  rw [isClassName.eq_def]
  split
  · simp
  · simp
  · next name c rest =>
    rw [Bool.not_eq_true']
    constructor
    · rintro ⟨-, -, h⟩
      by_contra hc
      exact (h c rest (by simpa using hc)).2 rfl
    · refine fun hc => ⟨List.cons_ne_nil _ _, by simp, fun d rest' hd => ⟨?_, ?_⟩⟩
      · rintro ⟨⟩
        cases hd
      · rintro ⟨⟩
        rw [hc] at hd
        cases hd
  · next name c rest hdash hmore =>
    rw [Bool.not_eq_true']
    constructor
    · rintro ⟨-, -, h⟩
      by_contra hc
      exact (h c rest (by simpa using hc)).1 rfl
    · refine fun hc => ⟨List.cons_ne_nil _ _, ?_, fun d rest' hd => ⟨?_, ?_⟩⟩
      · rintro ⟨⟩
        exact hdash rfl rfl
      · rintro ⟨⟩
        rw [hc] at hd
        cases hd
      · rintro ⟨⟩
        exact hmore _ _ rfl rfl

theorem localClasses_dot (cs : List Char) : localClasses ('.' :: cs) = classesFrom false
    (if isClassName (nameFrom .between cs).1 then [(nameFrom .between cs).1] else [])
    (nameFrom .between cs).2 := by
  rw [localClasses, classesFrom, if_neg (by decide), if_neg (by decide), if_neg (by decide),
    if_pos rfl]
  simp

theorem Name.localClasses_dot (h : Name cs) :
    localClasses ('.' :: cs) = if isClassName cs then [cs] else [] := by
  rw [Selector.localClasses_dot, nameFrom_eq_iff.2 h, classesFrom]

/-- A selector is one class exactly if it is a dot with the name of a class behind it. -/
theorem localClasses_eq_singleton_iff {name : List Char} :
    localClasses ('.' :: name) = [name] ↔ IsClass name := by
  rw [localClasses_dot, isClass_iff]
  have happend := nameFrom_append .between name
  have hlength := congrArg List.length happend
  rw [List.length_append] at hlength
  obtain ⟨hkept, hshort⟩ := classesFrom_bounds false
    (if isClassName (nameFrom .between name).1 then [(nameFrom .between name).1] else [])
    (nameFrom .between name).2
  constructor
  · intro h
    rw [h] at hkept hshort
    split at hkept
    · next hclass =>
      obtain ⟨rest, he⟩ := hkept
      obtain ⟨he, -⟩ := List.cons.inj he
      rw [he] at hclass happend
      refine ⟨nameFrom_eq_iff.1 (Prod.ext he (by simpa using happend)), hclass⟩
    · next hclass =>
      rw [if_neg hclass] at hshort
      rcases hshort name (List.mem_singleton_self _) with hname | hlt
      · cases hname
      · omega
  · rintro ⟨hname, hclass⟩
    rw [nameFrom_eq_iff.2 hname, if_pos hclass, classesFrom]

end CssModules.Selector
