import CssModules.Proofs.Identifier.Endings
import CssModules.Proofs.Identifier.Grammar
import Mathlib.Data.List.Induction
import Mathlib.Tactic.Push

namespace CssModules.Identifier

variable {cs ds before after : List Char} {c d : Char} {r : Reading}
  {slashes digits value : Nat}

/-- Whether a text leaves what follows it escaped: it ends with an odd number of backslashes. -/
def OpensEscape (before : List Char) : Prop :=
  (before.reverse.takeWhile (· == '\\')).length % 2 = 1

instance (before : List Char) : Decidable (OpensEscape before) :=
  inferInstanceAs (Decidable (_ = _))

/-- Whether a text ends with a hex escape: a backslash that is not escaped, and one to six digits. -/
def EndsHexEscape (before : List Char) : Prop :=
  ∃ front digits, before = front ++ '\\' :: digits ∧ ¬OpensEscape front ∧ digits ≠ [] ∧
    digits.length ≤ 6 ∧ ∀ d ∈ digits, (hexValue? d).isSome

section Readings

theorem next_escape_of_hexValue? {x : Nat} (h : hexValue? c = some x) :
    (Reading.escape digits value).next c =
      if digits < 6 then .escape (digits + 1) (16 * value + x) else .between := by
  rw [Reading.next, h]

theorem next_escape_of_none (hd : digits ≠ 0) (h : hexValue? c = none) :
    (Reading.escape digits value).next c = Reading.between.next c := by
  simp [Reading.next, h, hd]

theorem opensEscape_concat : OpensEscape (before ++ [c]) ↔ c = '\\' ∧ ¬OpensEscape before := by
  rw [OpensEscape, OpensEscape, List.reverse_append, List.reverse_singleton,
    List.singleton_append, List.takeWhile_cons]
  by_cases hc : c = '\\'
  · simp [hc]
    omega
  · simp [hc]

theorem exists_next_eq_escape_zero :
    (∃ value, r.next c = .escape 0 value) ↔ c = '\\' ∧ ¬∃ value, r = .escape 0 value := by
  cases r with
  | between => by_cases hc : c = '\\' <;> simp [Reading.next, hc]
  | escape digits value =>
    by_cases hc : c = '\\'
    · by_cases hd : digits = 0 <;> simp [Reading.next, hc, hexValue?_backslash, hd]
    · cases hx : hexValue? c with
      | none => simp [Reading.next, hx, hc]
      | some x =>
        rw [next_escape_of_hexValue? hx]
        split <;> simp [hc]

/-- The reading stands behind a backslash alone exactly where the text leaves the next character
escaped. -/
theorem exists_foldl_next_eq_escape_zero :
    (∃ value, before.foldl Reading.next .between = .escape 0 value) ↔ OpensEscape before := by
  induction before using List.reverseRecOn with
  | nil => simp [OpensEscape]
  | append_singleton before c ih =>
    rw [List.foldl_append, List.foldl_cons, List.foldl_nil, exists_next_eq_escape_zero, ih,
      opensEscape_concat]

theorem exists_digits (h : before.foldl Reading.next .between = .escape digits value) :
    ∃ front ds, before = front ++ '\\' :: ds ∧ ¬OpensEscape front ∧ ds.length = digits ∧
      digits ≤ 6 ∧ ∀ d ∈ ds, (hexValue? d).isSome := by
  induction before using List.reverseRecOn generalizing digits value with
  | nil => cases h
  | append_singleton before c ih =>
    rw [List.foldl_append, List.foldl_cons, List.foldl_nil] at h
    cases digits with
    | zero =>
      obtain ⟨rfl, hfront⟩ := exists_next_eq_escape_zero.1 ⟨value, h⟩
      rw [exists_foldl_next_eq_escape_zero] at hfront
      exact ⟨before, [], rfl, hfront, rfl, Nat.zero_le _, nofun⟩
    | succ digits =>
      cases hr : before.foldl Reading.next .between with
      | between =>
        rw [hr, Reading.next] at h
        split at h <;> cases h
      | escape read v =>
        rw [hr] at h
        cases hx : hexValue? c with
        | none =>
          rw [Reading.next, hx] at h
          dsimp only at h
          split at h <;> cases h
        | some x =>
          rw [next_escape_of_hexValue? hx] at h
          split at h
          · next hlt =>
            cases h
            obtain ⟨front, ds, rfl, hfront, rfl, -, hds⟩ := ih hr
            refine ⟨front, ds ++ [c], by simp, hfront, by simp, hlt, ?_⟩
            rw [List.forall_mem_append]
            exact ⟨hds, List.forall_mem_singleton.2 (by rw [hx]; rfl)⟩
          · cases h

theorem endsHexEscape_of_foldl (h : before.foldl Reading.next .between = .escape digits value)
    (hd : digits ≠ 0) : EndsHexEscape before := by
  obtain ⟨front, ds, he, hfront, hlength, hle, hds⟩ := exists_digits h
  refine ⟨front, ds, he, hfront, ?_, hlength ▸ hle, hds⟩
  rintro rfl
  exact hd hlength.symm

end Readings

section Deleting

theorem exists_unescapeFrom_escape (hd : digits ≠ 0) (value : Nat) (cs : List Char) :
    ∃ more rest, value ≤ more ∧
      unescapeFrom (.escape digits value) cs = decodedChar more :: rest := by
  induction cs generalizing digits value with
  | nil => exact ⟨value, [], Nat.le_refl _, by simp [unescapeFrom, hd]⟩
  | cons c cs ih =>
    rw [unescapeFrom]
    cases hexValue? c with
    | some x =>
      dsimp only
      split
      · obtain ⟨more, rest, hle, he⟩ := ih (Nat.succ_ne_zero digits) (16 * value + x)
        exact ⟨more, rest, by omega, he⟩
      · exact ⟨value, _, Nat.le_refl _, rfl⟩
    | none =>
      dsimp only
      rw [if_neg hd]
      split
      · exact ⟨value, _, Nat.le_refl _, rfl⟩
      · split <;> exact ⟨value, _, Nat.le_refl _, rfl⟩

theorem decodedChar_ne {more : Nat} (hpos : 0 < value) (hascii : value < 0x80)
    (hlt : value < more) : decodedChar value ≠ decodedChar more := by
  have toNat (n : Nat) (h : n.isValidChar ∧ n ≠ 0) : (decodedChar n).toNat = n := by
    rw [decodedChar, dif_pos h]
    rfl
  have hvalue := toNat value ⟨.inl (by omega), by omega⟩
  intro he
  rw [he] at hvalue
  by_cases h : more.isValidChar ∧ more ≠ 0
  · rw [toNat more h] at hvalue
    omega
  · rw [decodedChar, dif_neg h] at hvalue
    have hfffd : '\uFFFD'.toNat = 0xFFFD := rfl
    omega

theorem unescapeFrom_escape_space_ne (hd : digits ≠ 0) (hlt : digits < 6) (hpos : 0 < value)
    (hascii : value < 0x80) (hhead : ∃ d ∈ cs.head?, (hexValue? d).isSome) :
    unescapeFrom (.escape digits value) cs ≠ unescapeFrom (.escape digits value) (' ' :: cs) := by
  obtain ⟨d, hmem, hx⟩ := hhead
  obtain ⟨cs, rfl⟩ := List.head?_eq_some_iff.1 hmem
  obtain ⟨x, hx⟩ := Option.isSome_iff_exists.1 hx
  obtain ⟨more, rest, hle, he⟩ :=
    exists_unescapeFrom_escape (Nat.succ_ne_zero digits) (16 * value + x) cs
  have hwith : unescapeFrom (.escape digits value) (' ' :: d :: cs) =
      decodedChar value :: unescapeFrom .between (d :: cs) := by
    rw [unescapeFrom_cons]
    simp [Reading.emit, Reading.next, hexValue?_space, hd]
  have hwithout : unescapeFrom (.escape digits value) (d :: cs) = decodedChar more :: rest := by
    rw [unescapeFrom, hx]
    dsimp only
    rw [if_pos hlt, he]
  rw [hwith, hwithout]
  intro h
  exact decodedChar_ne hpos hascii (by omega) (List.cons.inj h).1.symm

end Deleting

/-- Whether a space before a text has to stand where a reading is: behind the backslash that escapes
it, or behind a hex escape that would go on without it. -/
def Stands : Reading → (after : List Char) → Prop
  | .between, _ => False
  | .escape digits value, after => digits ≠ 0 →
      digits < 6 ∧ 0 < value ∧ value < 0x80 ∧ ∃ d ∈ after.head?, (hexValue? d).isSome

def Needed (r : Reading) (cs : List Char) : Prop :=
  ∀ before after, cs = before ++ ' ' :: after → Stands (before.foldl Reading.next r) after

namespace Needed

theorem nil : Needed r [] := by
  intro before after h
  cases before <;> cases h

theorem cons (h : Needed (r.next c) cs) (hc : c = ' ' → Stands r cs) : Needed r (c :: cs) := by
  intro before after he
  cases before with
  | nil =>
    obtain ⟨rfl, rfl⟩ := List.cons.inj he
    exact hc rfl
  | cons c' before =>
    obtain ⟨rfl, rfl⟩ := List.cons.inj he
    exact h before after rfl

theorem append (hds : ' ' ∉ ds) (h : Needed (ds.foldl Reading.next r) cs) : Needed r (ds ++ cs) := by
  induction ds generalizing r with
  | nil => exact h
  | cons d ds ih =>
    obtain ⟨hd, hds⟩ := not_or.1 (List.mem_cons.not.1 hds)
    exact cons (ih hds h) fun he => absurd he.symm hd

theorem of_endsHex (hd : digits ≠ 0) (hcs : EndsHex cs) (h : Needed .between cs) :
    Needed (.escape digits value) cs := by
  cases cs with
  | nil => exact nil
  | cons c cs =>
    obtain ⟨hx, hspace⟩ := hcs c rfl
    refine cons (fun before after he => ?_) fun he => absurd he hspace
    rw [next_escape_of_none hd hx]
    exact h (c :: before) after (by rw [he]; rfl)

end Needed

section Dropping

theorem exists_dropTerminators_cons (hr : r.Behind slashes digits) (h : c ≠ ' ' ∨ digits = 0)
    (cs : List Char) : ∃ slashes' digits', (r.next c).Behind slashes' digits' ∧
      (c = '\\' → digits' = 0) ∧
      dropTerminators slashes digits (c :: cs) = c :: dropTerminators slashes' digits' cs := by
  rw [dropTerminators.eq_def]
  dsimp only
  split
  · next hb =>
    subst hb
    exact ⟨_, 0, hr.backslash, fun _ => rfl, rfl⟩
  · next hb =>
    split
    · next hx => exact ⟨_, _, hr.digit hx.1 hx.2.1 hx.2.2, fun he => absurd he hb, rfl⟩
    · rw [if_neg fun hs => h.elim (absurd hs.2.1) fun h0 => by omega]
      exact ⟨0, 0, .other r hb, fun he => absurd he hb, rfl⟩

theorem dropTerminators_digits (hs : slashes ≠ 0) (hds : ∀ d ∈ ds, isUpperHex d)
    (hlength : digits + ds.length ≤ 7) (cs : List Char) :
    dropTerminators slashes digits (ds ++ cs) =
      ds ++ dropTerminators slashes (digits + ds.length) cs := by
  induction ds generalizing digits with
  | nil => rfl
  | cons d ds ih =>
    obtain ⟨hd, hds⟩ := List.forall_mem_cons.1 hds
    rw [List.length_cons] at hlength
    have hb : d ≠ '\\' := by
      rintro rfl
      cases hd
    rw [List.cons_append, dropTerminators.eq_def]
    dsimp only
    rw [if_neg hb, if_pos ⟨hs, hd, by omega⟩, ih hds (by omega), List.length_cons, Nat.add_assoc,
      Nat.add_comm 1, List.cons_append]

theorem dropTerminators_space_of_endsHex (hodd : slashes % 2 = 1) (hlo : 1 ≤ digits)
    (hhi : digits ≤ 6) (hcs : EndsHex cs) :
    dropTerminators slashes digits (' ' :: cs) = dropTerminators 0 0 cs := by
  have hx : isUpperHex ' ' = false := rfl
  have hs : slashes ≠ 0 := by omega
  cases cs with
  | nil => simp [dropTerminators, hx, hs, hlo, hhi, hodd]
  | cons c cs =>
    obtain ⟨hhex, hspace⟩ := hcs c rfl
    rw [dropTerminators.eq_def]
    simp [hx, hs, hlo, hhi, hodd, hhex, hspace]

/-- A hex escape in front of a spelling keeps its terminator only if the spelling begins with a
digit. -/
theorem needed_hexEscape (hr : Reading.between.Behind slashes digits)
    (hds : ∀ d ∈ ds, isUpperHex d) (hne : ds ≠ []) (hlength : ds.length < 6)
    (hread : ds.foldl Reading.next (.escape 0 0) = .escape ds.length value) (hpos : 0 < value)
    (hascii : value < 0x80) (hhead : ' ' ∉ cs.head?)
    (hcs : Needed .between (dropTerminators 0 0 cs)) :
    Needed .between (dropTerminators slashes digits ('\\' :: (ds ++ ' ' :: cs))) := by
  obtain ⟨behind, hodd, hdrop⟩ : ∃ behind, behind % 2 = 1 ∧
      dropTerminators slashes digits ('\\' :: (ds ++ ' ' :: cs)) =
        '\\' :: dropTerminators behind 0 (ds ++ ' ' :: cs) := by
    refine ⟨_, ?_, by rw [dropTerminators.eq_def]; exact if_pos rfl⟩
    have hb := hr.backslash
    simp only [Reading.next, ↓reduceIte, Reading.Behind] at hb
    omega
  have hbehind : behind ≠ 0 := by omega
  have hpos' := List.length_pos_iff.2 hne
  have hspace : ' ' ∉ ds := fun hm => by
    have hx := hds ' ' hm
    cases hx
  rw [hdrop, dropTerminators_digits hbehind hds (by omega), Nat.zero_add]
  refine .cons (.append hspace ?_) fun he => absurd he (by decide)
  rw [Reading.next, if_pos rfl, hread]
  by_cases hends : EndsHex cs
  · rw [dropTerminators_space_of_endsHex hodd hpos' (by omega) hends]
    refine .of_endsHex (by omega) ?_ hcs
    rwa [EndsHex, head?_dropTerminators]
  · obtain ⟨d, hd, hx⟩ : ∃ d ∈ cs.head?, (hexValue? d).isSome := by
      by_contra hnone
      push Not at hnone
      refine hends fun d hd => ⟨Option.not_isSome_iff_eq_none.1 (hnone d hd), ?_⟩
      rintro rfl
      exact hhead hd
    obtain ⟨hends', -⟩ | hkeep := dropTerminators_space hbehind hpos' (by omega) cs
    · exact absurd hends' hends
    · rw [hkeep]
      refine .cons ?_ fun _ _ => ⟨hlength, hpos, hascii, d, ?_, hx⟩
      · have hbetween : (Reading.escape ds.length value).next ' ' = .between := by
          simp [Reading.next, hexValue?_space]
        rwa [hbetween]
      · rwa [head?_dropTerminators]

theorem head?_flatMap_escapeChar_ne (cs : List Char) : ' ' ∉ (cs.flatMap escapeChar).head? := by
  cases cs with
  | nil => nofun
  | cons c cs =>
    rw [List.flatMap_cons, escapeChar]
    split
    · simp
    · next hl =>
      split
      · simp
      · next hp =>
        rintro he
        obtain rfl := Option.some.inj he
        exact hp rfl

theorem needed_flatMap_escapeChar (hr : Reading.between.Behind slashes digits) (cs : List Char) :
    Needed .between (dropTerminators slashes digits (cs.flatMap escapeChar)) := by
  induction cs generalizing slashes digits with
  | nil => exact .nil
  | cons c cs ih =>
    rw [List.flatMap_cons]
    by_cases hl : isLayout c
    · obtain ⟨x, value, hx, hspelled, hvalue, hpos, hascii⟩ : ∃ x value, isUpperHex x = true ∧
          escapeChar c = ['\\', x, ' '] ∧ hexValue? x = some value ∧ 0 < value ∧ value < 0x80 := by
        rcases isLayout_cases hl with rfl | rfl | rfl | rfl | rfl
        · exact ⟨'9', 9, rfl, rfl, rfl, by decide, by decide⟩
        · exact ⟨'A', 10, rfl, rfl, rfl, by decide, by decide⟩
        · exact ⟨'B', 11, rfl, rfl, rfl, by decide, by decide⟩
        · exact ⟨'C', 12, rfl, rfl, rfl, by decide, by decide⟩
        · exact ⟨'D', 13, rfl, rfl, rfl, by decide, by decide⟩
      rw [hspelled]
      have hread : [x].foldl Reading.next (.escape 0 0) = .escape [x].length value := by
        simp [Reading.next, hvalue]
      exact needed_hexEscape hr (List.forall_mem_singleton.2 hx) (by simp) (by simp) hread hpos
        hascii (head?_flatMap_escapeChar_ne cs) (ih (.inl rfl))
    · by_cases hp : isPunctuation c
      · rw [escapeChar, if_neg hl, if_pos hp]
        obtain ⟨slashes', digits', hr', hzero, hdrop⟩ := exists_dropTerminators_cons hr
          (c := '\\') (.inl (by decide)) (c :: cs.flatMap escapeChar)
        obtain ⟨slashes'', digits'', hr'', -, hdrop'⟩ := exists_dropTerminators_cons hr'
          (c := c) (.inr (hzero rfl)) (cs.flatMap escapeChar)
        have hbetween : (Reading.between.next '\\').next c = .between := by
          simp [Reading.next, hexValue?_of_isPunctuation hp]
        rw [hbetween] at hr''
        rw [List.cons_append, List.singleton_append, hdrop, hdrop']
        refine .cons (.cons ?_ fun _ h => absurd rfl h) fun he => absurd he (by decide)
        rw [hbetween]
        exact ih hr''
      · have hc : c ≠ ' ' := by
          rintro rfl
          exact hp rfl
        have hbetween : Reading.between.next c = .between := by
          refine if_neg ?_
          rintro rfl
          exact hp rfl
        obtain ⟨slashes', digits', hr', -, hdrop⟩ :=
          exists_dropTerminators_cons hr (.inl hc) (cs.flatMap escapeChar)
        rw [hbetween] at hr'
        rw [escapeChar, if_neg hl, if_neg hp, List.singleton_append, hdrop]
        refine .cons ?_ fun he => absurd he hc
        rw [hbetween]
        exact ih hr'

theorem needed_escapeGuarded (cs : List Char) :
    Needed .between (dropTerminators 0 0 (escapeGuarded cs)) := by
  have hr : Reading.between.Behind 0 0 := .inl rfl
  unfold escapeGuarded
  split
  · exact .nil
  · next c cs =>
    split
    · obtain ⟨slashes, digits, hr', hzero, hdrop⟩ := exists_dropTerminators_cons hr (c := '\\')
        (.inl (by decide)) ('-' :: (c :: cs).flatMap escapeChar)
      obtain ⟨slashes', digits', hr'', -, hdrop'⟩ := exists_dropTerminators_cons hr' (c := '-')
        (.inl (by decide)) ((c :: cs).flatMap escapeChar)
      rw [hdrop, hdrop']
      exact .cons (.cons (needed_flatMap_escapeChar hr'' _) nofun) nofun
    · exact needed_flatMap_escapeChar hr _
  · next c cs _ =>
    split
    · next hd =>
      have hc := isDigit_iff.1 hd
      have h3 : hexValue? '3' = some 3 := rfl
      have hdigits : ∀ d ∈ ['3', c], isUpperHex d := by
        rw [List.forall_mem_cons, List.forall_mem_singleton]
        exact ⟨rfl, isUpperHex_of_isDigit hd⟩
      have hread : ['3', c].foldl Reading.next (.escape 0 0) =
          .escape ['3', c].length (16 * 3 + (c.toNat - 48)) := by
        simp [Reading.next, h3, hexValue?_of_isDigit hd]
      exact needed_hexEscape hr hdigits (by simp) (by simp) hread (by omega) (by omega)
        (head?_flatMap_escapeChar_ne cs) (needed_flatMap_escapeChar hr cs)
    · exact needed_flatMap_escapeChar hr _

end Dropping

/-- Dropping spaces changes nothing of what any text stands for, and leaves none in an escaped
spelling that could be dropped too: a space that is not escaped ends a hex escape, and without it
the spelling stands for another text. -/
theorem escape_terminators :
    (∀ text, unescape (stripRedundantSpaces text) = unescape text) ∧
    ∀ raw before after, (escape raw).toList = before ++ ' ' :: after → ¬OpensEscape before →
      EndsHexEscape before ∧ unescape (String.ofList (before ++ after)) ≠ unescape (escape raw) := by
  constructor
  · intro text
    have hbehind : Reading.between.Behind 0 0 := .inl rfl
    rw [unescape, unescape, stripRedundantSpaces, String.toList_ofList,
      unescapeFrom_dropTerminators hbehind]
  · intro raw before after he hopen
    have hneeded := needed_escapeGuarded raw.toList before after
    rw [toList_escape] at he
    have hstands := hneeded he
    cases hr : before.foldl Reading.next .between with
    | between =>
      rw [hr] at hstands
      exact hstands.elim
    | escape digits value =>
      have hd : digits ≠ 0 := by
        rintro rfl
        exact hopen (exists_foldl_next_eq_escape_zero.1 ⟨value, hr⟩)
      rw [hr] at hstands
      obtain ⟨hlt, hpos, hascii, hhead⟩ := hstands hd
      refine ⟨endsHexEscape_of_foldl hr hd, fun heq => ?_⟩
      rw [unescape, unescape, toList_escape, String.toList_ofList, he] at heq
      have hbehind := unescapeFrom_append_cancel (String.ofList_injective heq)
      rw [hr] at hbehind
      exact unescapeFrom_escape_space_ne hd hlt hpos hascii hhead hbehind

theorem escape_terminators_tab :
    escape "1a\\\ta b" = "\\31 a\\\\\\9 a\\ b" ∧
      unescape (stripRedundantSpaces "\\9 \\\\9 \\ab \\1234567 g\\9") =
        unescape "\\9 \\\\9 \\ab \\1234567 g\\9" ∧
      ¬OpensEscape "\\31 a\\\\\\9".toList ∧ EndsHexEscape "\\31 a\\\\\\9".toList ∧
      unescape "\\31 a\\\\\\9a\\ b" ≠ unescape (escape "1a\\\ta b") := by
  have hescape : escape "1a\\\ta b" = "\\31 a\\\\\\9 a\\ b" := by decide +kernel
  have hopen : ¬OpensEscape "\\31 a\\\\\\9".toList := by decide +kernel
  obtain ⟨hends, hne⟩ := escape_terminators.2 "1a\\\ta b" "\\31 a\\\\\\9".toList "a\\ b".toList
    (by rw [hescape]; rfl) hopen
  exact ⟨hescape, escape_terminators.1 _, hopen, hends, hne⟩

end CssModules.Identifier
