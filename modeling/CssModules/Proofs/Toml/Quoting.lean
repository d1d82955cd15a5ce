import CssModules.Toml.Read
import Mathlib.Data.List.Basic

namespace CssModules.Toml

variable {c d : Char} {cs rest : List Char} {form : Form} {quotes : Nat}

def Unquoted (rest : List Char) : Prop := '"' ∉ rest.head? ∧ '\'' ∉ rest.head?

section Characters

theorem scalar?_hexChar (h : c.toNat < 128) :
    scalar? ['0', '0', hexChar (c.toNat / 16), hexChar (c.toNat % 16)] = some c := by
  have hall : ∀ n < 128, scalar? ['0', '0', hexChar (n / 16), hexChar (n % 16)] =
      some (Char.ofNat n) := by
    decide +kernel
  rw [hall c.toNat h, Char.ofNat_toNat]

theorem toNat_lt_of_isControl (h : isControl c = true) : c.toNat < 128 := by
  simp only [isControl, Bool.or_eq_true, Bool.and_eq_true, decide_eq_true_eq, beq_iff_eq] at h
  rcases h with ⟨hlt, -⟩ | rfl
  · omega
  · decide

theorem exists_escape (oneLine : Bool) (c : Char) :
    ∃ d ds, escape oneLine c = d :: ds ∧ (d = c ∨ d = '\\') := by
  rw [escape.eq_def]
  split
  case h_6 =>
    split
    · exact ⟨_, _, rfl, .inr rfl⟩
    · exact ⟨_, _, rfl, .inl rfl⟩
  case h_7 =>
    split
    · exact ⟨_, _, rfl, .inr rfl⟩
    · exact ⟨_, _, rfl, .inl rfl⟩
  all_goals exact ⟨_, _, rfl, .inr rfl⟩

theorem not_mem_head?_escape (oneLine : Bool) (h : d ≠ c) (hback : d ≠ '\\') (cs : List Char) :
    d ∉ (escape oneLine c ++ cs).head? := by
  obtain ⟨e, ds, he, hcases⟩ := exists_escape oneLine c
  rw [he]
  rintro hd
  obtain rfl := Option.some.inj hd
  exact hcases.elim (h ·) hback

end Characters

theorem read_quotes {read : List Char → Option (List Char × List Char)}
    (hread : ∀ cs, (∀ ds, cs ≠ c :: c :: ds) → read (c :: cs) = pushed c (read cs))
    (h : quotes ≤ 2) (hcs : c ∉ cs.head?) :
    read (List.replicate quotes c ++ cs) =
      (read cs).map fun (text, rest) => (List.replicate quotes c ++ text, rest) := by
  have hne (ds : List Char) : cs ≠ c :: ds := by
    rintro rfl
    exact hcs rfl
  rcases quotes with _ | _ | _ | quotes
  · exact Option.map_id'.symm
  · exact hread cs fun ds => hne _
  · rw [List.replicate_succ, List.replicate_succ, List.replicate_zero, List.cons_append,
      List.cons_append, List.nil_append, hread _ fun ds he => hne ds (List.cons.inj he).2,
      hread cs fun ds => hne _]
    cases read cs <;> rfl
  · omega

section Basic

theorem readBasic_cons (hquote : c ≠ '"') (hback : c ≠ '\\') (hcontrol : isControl c = false) :
    readBasic (c :: cs) = pushed c (readBasic cs) := by
  rw [readBasic]
  · rw [hcontrol]
    rfl
  all_goals simp_all

theorem readBasic_escape (h : c ≠ '"') (cs : List Char) :
    readBasic (escape true c ++ cs) = pushed c (readBasic cs) := by
  rw [escape.eq_def]
  split
  case h_7 hback _ =>
    split
    · next hcontrol =>
      have hscalar := scalar?_hexChar (toNat_lt_of_isControl hcontrol)
      simp [readBasic, hscalar]
    · next hcontrol => exact readBasic_cons h hback (Bool.eq_false_iff.2 hcontrol)
  all_goals rfl

theorem readBasic_escapeLine (cs rest : List Char) :
    readBasic (escapeLine cs ++ '"' :: rest) = some (cs, rest) := by
  induction cs with
  | nil => rfl
  | cons c cs ih =>
    rw [escapeLine, List.flatMap_cons, ← escapeLine, List.append_assoc]
    split
    · next hc =>
      have hquote (cs : List Char) : readBasic ('\\' :: '"' :: cs) = pushed '"' (readBasic cs) := rfl
      rw [List.cons_append, List.singleton_append, hquote, ih, hc]
      rfl
    · next hc =>
      rw [readBasic_escape hc, ih]
      rfl

end Basic

section BasicLines

theorem escapeLines_cons (h : c ≠ '"') (quotes : Nat) (cs : List Char) :
    escapeLines quotes (c :: cs) = escape false c ++ escapeLines 0 cs := by
  rw [escapeLines]
  exact h

theorem readBasicLines_cons (hquote : c ≠ '"') (hback : c ≠ '\\')
    (hcontrol : c = '\n' ∨ isControl c = false) :
    readBasicLines false (c :: cs) = pushed c (readBasicLines false cs) := by
  rw [readBasicLines]
  · rcases hcontrol with rfl | hcontrol
    · rfl
    · rw [hcontrol]
      rfl
  all_goals simp_all

theorem readBasicLines_escape (h : c ≠ '"') (cs : List Char) :
    readBasicLines false (escape false c ++ cs) = pushed c (readBasicLines false cs) := by
  rw [escape.eq_def]
  split
  case h_7 hback _ =>
    split
    · next hcontrol =>
      have hscalar := scalar?_hexChar (toNat_lt_of_isControl hcontrol)
      simp [readBasicLines, hscalar]
    · next hcontrol => exact readBasicLines_cons h hback (.inr (Bool.eq_false_iff.2 hcontrol))
  all_goals rfl

theorem readBasicLines_quote (h : ∀ ds, cs ≠ '"' :: '"' :: ds) :
    readBasicLines false ('"' :: cs) = pushed '"' (readBasicLines false cs) := by
  rw [readBasicLines]
  · rfl
  all_goals simp_all

-- The induction is on the text; `quotes` of them stand before it that may be part of the run that
-- closes the string.
theorem readBasicLines_escapeLines (cs : List Char) (hrest : '"' ∉ rest.head?) (h : quotes ≤ 2) :
    readBasicLines false (List.replicate quotes '"' ++ (escapeLines quotes cs ++
      '"' :: '"' :: '"' :: rest)) = some (List.replicate quotes '"' ++ cs, rest) := by
  induction cs generalizing quotes with
  | nil =>
    have hne (ds : List Char) : rest ≠ '"' :: ds := by
      rintro rfl
      exact hrest rfl
    rcases quotes with _ | _ | _ | quotes
    · change readBasicLines false ('"' :: '"' :: '"' :: rest) = _
      rw [readBasicLines]
      · rfl
      all_goals simp_all
    · change readBasicLines false ('"' :: '"' :: '"' :: '"' :: rest) = _
      rw [readBasicLines]
      · rfl
      all_goals simp_all
    · rfl
    · omega
  | cons c cs ih =>
    by_cases hc : c = '"'
    · subst hc
      rw [escapeLines]
      split
      · next hfull =>
        have hquote (cs : List Char) : readBasicLines false ('\\' :: '"' :: cs) =
          pushed '"' (readBasicLines false cs) := rfl
        have hbehind := ih (Nat.zero_le 2)
        rw [List.replicate_zero, List.nil_append, List.nil_append] at hbehind
        rw [List.cons_append, List.cons_append,
          read_quotes (fun _ => readBasicLines_quote) h (by simp), hquote, hbehind]
        rfl
      · have hmore := @ih (quotes + 1) (by omega)
        rw [List.replicate_succ', List.append_assoc, List.append_assoc] at hmore
        exact hmore
    · have hhead := not_mem_head?_escape false (Ne.symm hc) (by decide)
        (escapeLines 0 cs ++ '"' :: '"' :: '"' :: rest)
      have hbehind := ih (Nat.zero_le 2)
      rw [List.replicate_zero, List.nil_append, List.nil_append] at hbehind
      rw [escapeLines_cons hc, List.append_assoc,
        read_quotes (fun _ => readBasicLines_quote) h hhead, readBasicLines_escape hc, hbehind]
      rfl

end BasicLines

section Literal

def Visible (cs : List Char) : Prop := ∀ c ∈ cs, c = '\n' ∨ isControl c = false

theorem readLiteral_append (hvisible : Visible cs) (hbreak : '\n' ∉ cs) (hcs : '\'' ∉ cs)
    (rest : List Char) : readLiteral (cs ++ '\'' :: rest) = some (cs, rest) := by
  induction cs with
  | nil => rfl
  | cons c cs ih =>
    obtain ⟨hc, hvisible⟩ := List.forall_mem_cons.1 hvisible
    obtain ⟨hc', hbreak⟩ := not_or.1 (List.mem_cons.not.1 hbreak)
    obtain ⟨hquote, hcs⟩ := not_or.1 (List.mem_cons.not.1 hcs)
    have hcontrol : isControl c = false := hc.resolve_left (Ne.symm hc')
    rw [List.cons_append, readLiteral, hcontrol, ih hvisible hbreak hcs]
    · rfl
    · exact Ne.symm hquote

theorem readLiteralLines_cons (hquote : c ≠ '\'') (hcontrol : c = '\n' ∨ isControl c = false) :
    readLiteralLines (c :: cs) = pushed c (readLiteralLines cs) := by
  rw [readLiteralLines]
  · rcases hcontrol with rfl | hcontrol
    · rfl
    · rw [hcontrol]
      rfl
  all_goals simp_all

theorem readLiteralLines_quote (h : ∀ ds, cs ≠ '\'' :: '\'' :: ds) :
    readLiteralLines ('\'' :: cs) = pushed '\'' (readLiteralLines cs) := by
  rw [readLiteralLines]
  · rfl
  all_goals simp_all

theorem readLiteralLines_append (hvisible : Visible cs) (hrest : '\'' ∉ rest.head?)
    (h : longestRun '\'' quotes cs ≤ 2) :
    readLiteralLines (List.replicate quotes '\'' ++ (cs ++ '\'' :: '\'' :: '\'' :: rest)) =
      some (List.replicate quotes '\'' ++ cs, rest) := by
  induction cs generalizing quotes with
  | nil =>
    rw [longestRun] at h
    have hne (ds : List Char) : rest ≠ '\'' :: ds := by
      rintro rfl
      exact hrest rfl
    rcases quotes with _ | _ | _ | quotes
    · change readLiteralLines ('\'' :: '\'' :: '\'' :: rest) = _
      rw [readLiteralLines]
      · rfl
      all_goals simp_all
    · change readLiteralLines ('\'' :: '\'' :: '\'' :: '\'' :: rest) = _
      rw [readLiteralLines]
      · rfl
      all_goals simp_all
    · rfl
    · omega
  | cons c cs ih =>
    obtain ⟨hc, hvisible⟩ := List.forall_mem_cons.1 hvisible
    rw [longestRun] at h
    split at h
    · next hquote =>
      have hmore := ih hvisible h
      rw [List.replicate_succ', List.append_assoc, List.append_assoc] at hmore
      rw [hquote]
      exact hmore
    · next hquote =>
      have hbehind := ih hvisible (Nat.le_trans (Nat.le_max_right quotes _) h)
      rw [List.replicate_zero, List.nil_append, List.nil_append] at hbehind
      rw [List.cons_append,
        read_quotes (fun _ => readLiteralLines_quote) (by omega) (by simpa using hquote),
        readLiteralLines_cons hquote hc, hbehind]
      rfl

end Literal

section Forms

theorem dropBreak_leadBreak (h : '\n' ∉ cs → '\n' ∉ rest.head?) :
    dropBreak (leadBreak cs ++ rest) = rest := by
  rw [leadBreak]
  split
  · rfl
  · next hbreak =>
    cases rest with
    | nil => rfl
    | cons d rest =>
      have hd := h (by simpa using hbreak)
      rw [List.nil_append, dropBreak]
      rintro cs he
      obtain ⟨rfl, -⟩ := List.cons.inj he
      exact hd rfl

def Form.Fits (form : Form) (cs : List Char) : Prop :=
  match form with
  | .basic | .basicLines => True
  | .literal => Visible cs ∧ '\n' ∉ cs ∧ '\'' ∉ cs ∧ cs ≠ []
  | .literalLines => Visible cs ∧ longestRun '\'' 0 cs ≤ 2

theorem le_longestRun (c : Char) (quotes : Nat) (cs : List Char) :
    quotes ≤ longestRun c quotes cs := by
  induction cs generalizing quotes with
  | nil => exact Nat.le_refl _
  | cons d cs ih =>
    rw [longestRun]
    split
    · exact Nat.le_of_succ_le (ih (quotes + 1))
    · exact Nat.le_max_left ..

theorem not_mem_of_longestRun (h : longestRun c quotes cs = 0) : c ∉ cs := by
  induction cs generalizing quotes with
  | nil => exact List.not_mem_nil
  | cons d cs ih =>
    rw [longestRun] at h
    split at h
    · have hle := le_longestRun c (quotes + 1) cs
      omega
    · next hne =>
      intro hmem
      rcases List.mem_cons.1 hmem with he | hmem
      · exact hne he.symm
      · exact ih (Nat.max_eq_zero_iff.1 h).2 hmem

theorem visible_of_traits (h : (traits cs).hasControl = false) : Visible cs := by
  intro c hc
  have hcontrol := List.any_eq_false.1 h c hc
  simp only [Bool.and_eq_true, bne_iff_ne, not_and, not_not] at hcontrol
  cases hc : isControl c with
  | true => exact .inl (hcontrol hc)
  | false => exact .inr rfl

theorem fits_literal (hne : cs ≠ []) (hcontrol : (traits cs).hasControl = false)
    (hquotes : (traits cs).apostrophes = 0) (hbreak : (traits cs).hasBreak = false) :
    Form.literal.Fits cs :=
  ⟨visible_of_traits hcontrol, by simpa [traits] using hbreak, not_mem_of_longestRun hquotes, hne⟩

theorem fits_form (cs : List Char) : (traits cs).form.Fits cs := by
  rw [Traits.form]
  split
  · trivial
  · next hbasic =>
    split
    · next h =>
      simp only [Bool.and_eq_true, Bool.not_eq_true', beq_iff_eq] at h
      refine fits_literal ?_ h.1.1 h.1.2 h.2
      rintro rfl
      exact hbasic rfl
    · split
      · trivial
      · split
        · next h =>
          simp only [Bool.and_eq_true, Bool.not_eq_true', decide_eq_true_eq] at h
          exact ⟨visible_of_traits h.1, h.2⟩
        · split <;> trivial

theorem fits_keyForm (cs : List Char) : (traits cs).keyForm.Fits cs := by
  rw [Traits.keyForm]
  split
  · trivial
  · next hbasic =>
    split
    · next h =>
      simp only [Bool.and_eq_true, Bool.not_eq_true', beq_iff_eq] at h
      refine fits_literal ?_ h.1.1 h.2 h.1.2
      rintro rfl
      exact hbasic rfl
    · trivial

theorem head?_escapeLine (h : cs ≠ []) (ds : List Char) : '"' ∉ (escapeLine cs ++ ds).head? := by
  cases cs with
  | nil => exact absurd rfl h
  | cons c cs =>
    rw [escapeLine, List.flatMap_cons, List.append_assoc]
    split
    · exact by simp
    · next hc => exact not_mem_head?_escape true (Ne.symm hc) (by decide) _

theorem head?_escapeLines (h : '\n' ∉ cs) (quotes : Nat) (ds : List Char) :
    '\n' ∉ (escapeLines quotes cs ++ '"' :: ds).head? := by
  cases cs with
  | nil => simp [escapeLines]
  | cons c cs =>
    obtain ⟨hc, -⟩ := not_or.1 (List.mem_cons.not.1 h)
    by_cases hquote : c = '"'
    · subst hquote
      rw [escapeLines]
      split <;> simp
    · rw [escapeLines_cons hquote, List.append_assoc]
      exact not_mem_head?_escape false hc (by decide) _

theorem readString_write (h : form.Fits cs) (hrest : Unquoted rest) :
    readString (form.write cs ++ rest) = some (cs, rest) := by
  obtain ⟨hquote, happostrophe⟩ := hrest
  cases form with
  | basic =>
    have htext : Form.basic.write cs ++ rest = '"' :: (escapeLine cs ++ '"' :: rest) := by
      simp [Form.write]
    have hline (ds : List Char) : escapeLine cs ++ '"' :: rest ≠ '"' :: '"' :: ds := by
      intro he
      rcases eq_or_ne cs [] with rfl | hne
      · obtain rfl := (List.cons.inj he).2
        exact hquote rfl
      · exact head?_escapeLine hne _ (by rw [he]; rfl)
    rw [htext, readString, readBasic_escapeLine]
    exact hline
  | literal =>
    obtain ⟨hvisible, hbreak, hcs, hne⟩ := h
    have htext : Form.literal.write cs ++ rest = '\'' :: (cs ++ '\'' :: rest) := by
      simp [Form.write]
    have hline (ds : List Char) : cs ++ '\'' :: rest ≠ '\'' :: '\'' :: ds := by
      intro he
      cases cs with
      | nil => exact hne rfl
      | cons c cs =>
        obtain ⟨rfl, -⟩ := List.cons.inj he
        exact hcs (List.mem_cons_self ..)
    rw [htext, readString, readLiteral_append hvisible hbreak hcs]
    exact hline
  | basicLines =>
    have htext : Form.basicLines.write cs ++ rest = '"' :: '"' :: '"' ::
        (leadBreak cs ++ (escapeLines 0 cs ++ '"' :: '"' :: '"' :: rest)) := by
      simp [Form.write]
    rw [htext, readString, dropBreak_leadBreak fun hbreak => head?_escapeLines hbreak 0 _]
    exact readBasicLines_escapeLines cs hquote (Nat.zero_le 2)
  | literalLines =>
    obtain ⟨hvisible, hrun⟩ := h
    have htext : Form.literalLines.write cs ++ rest = '\'' :: '\'' :: '\'' ::
        (leadBreak cs ++ (cs ++ '\'' :: '\'' :: '\'' :: rest)) := by
      simp [Form.write]
    have hhead (hbreak : '\n' ∉ cs) : '\n' ∉ (cs ++ '\'' :: '\'' :: '\'' :: rest).head? := by
      cases cs with
      | nil => simp
      | cons c cs => simpa using Ne.symm (not_or.1 (List.mem_cons.not.1 hbreak)).1
    rw [htext, readString, dropBreak_leadBreak hhead]
    exact readLiteralLines_append hvisible happostrophe hrun

theorem readString_writeString (cs : List Char) (hrest : Unquoted rest) :
    readString (writeString cs ++ rest) = some (cs, rest) :=
  readString_write (fits_form cs) hrest

end Forms

section Keys

theorem readKeyPart_word (hne : cs ≠ []) (hcs : ∀ c ∈ cs, isKeyChar c = true)
    (hrest : ∀ c ∈ rest.head?, isKeyChar c = false) :
    readKeyPart (cs ++ rest) = some (String.ofList cs, rest) := by
  have hstop : rest.takeWhile isKeyChar = [] ∧ rest.dropWhile isKeyChar = rest := by
    cases rest with
    | nil => exact ⟨rfl, rfl⟩
    | cons c rest => simp [hrest c rfl]
  have htake : (cs ++ rest).takeWhile isKeyChar = cs := by
    rw [List.takeWhile_append_of_pos hcs, hstop.1, List.append_nil]
  have hdrop : (cs ++ rest).dropWhile isKeyChar = rest := by
    rw [List.dropWhile_append_of_pos hcs, hstop.2]
  cases cs with
  | nil => exact absurd rfl hne
  | cons c cs =>
    have hc := hcs c (List.mem_cons_self ..)
    rw [List.cons_append] at htake hdrop ⊢
    rw [readKeyPart]
    · rw [htake, hdrop]
      rfl
    · rintro ds he
      obtain ⟨rfl, -⟩ := List.cons.inj he
      cases hc
    · rintro ds he
      obtain ⟨rfl, -⟩ := List.cons.inj he
      cases hc

theorem readKeyPart_basic (cs rest : List Char) :
    readKeyPart (Form.basic.write cs ++ rest) = some (String.ofList cs, rest) := by
  have htext : Form.basic.write cs ++ rest = '"' :: (escapeLine cs ++ '"' :: rest) := by
    simp [Form.write]
  rw [htext, readKeyPart, readBasic_escapeLine]
  rfl

theorem readKeyPart_writeKey (cs : List Char) (hrest : ∀ c ∈ rest.head?, isKeyChar c = false) :
    readKeyPart (writeKey cs ++ rest) = some (String.ofList cs, rest) := by
  rw [writeKey]
  split
  · next h =>
    obtain ⟨hne, hall⟩ := Bool.and_eq_true_iff.1 h
    exact readKeyPart_word (by simpa using hne) (List.all_eq_true.1 hall) hrest
  · rw [Traits.keyForm]
    split
    · exact readKeyPart_basic cs rest
    · split
      · next h =>
        simp only [Bool.and_eq_true, Bool.not_eq_true', beq_iff_eq] at h
        have hbreak : '\n' ∉ cs := by simpa [traits] using h.1.2
        have htext : Form.literal.write cs ++ rest = '\'' :: (cs ++ '\'' :: rest) := by
          simp [Form.write]
        rw [htext, readKeyPart, readLiteral_append (visible_of_traits h.1.1) hbreak
          (not_mem_of_longestRun h.2)]
        rfl
      · exact readKeyPart_basic cs rest

end Keys

section Heads

theorem Form.exists_write (form : Form) (cs : List Char) :
    ∃ c ds, form.write cs = c :: ds ∧ (c = '"' ∨ c = '\'') := by
  cases form with
  | basic => exact ⟨_, _, rfl, .inl rfl⟩
  | literal => exact ⟨_, _, rfl, .inr rfl⟩
  | basicLines => exact ⟨_, _, rfl, .inl rfl⟩
  | literalLines => exact ⟨_, _, rfl, .inr rfl⟩

def Begins (c : Char) : Prop := isKeyChar c = true ∨ c = '"' ∨ c = '\''

instance (c : Char) : Decidable (Begins c) := inferInstanceAs (Decidable (_ ∨ _))

theorem Begins.isBlank (h : Begins c) : isBlank c = false := by
  rw [Bool.eq_false_iff]
  intro hblank
  rw [Toml.isBlank, Bool.or_eq_true, beq_iff_eq, beq_iff_eq] at hblank
  rcases hblank with rfl | rfl
  all_goals exact absurd h (by decide)

theorem exists_writeKey (cs : List Char) : ∃ c ds, writeKey cs = c :: ds ∧ Begins c := by
  rw [writeKey]
  split
  · next h =>
    obtain ⟨hne, hall⟩ := Bool.and_eq_true_iff.1 h
    cases cs with
    | nil => cases hne
    | cons c cs => exact ⟨c, cs, rfl, .inl (List.all_eq_true.1 hall c (List.mem_cons_self ..))⟩
  · obtain ⟨c, ds, he, hc⟩ := (traits cs).keyForm.exists_write cs
    exact ⟨c, ds, he, .inr hc⟩

end Heads

section Returns

theorem Visible.return_not_mem (h : Visible cs) : '\r' ∉ cs := by
  intro hmem
  rcases h _ hmem with he | he <;> cases he

theorem return_not_mem_escape (oneLine : Bool) (c : Char) : '\r' ∉ escape oneLine c := by
  have hhex : ∀ n < 16, '\r' ≠ hexChar n := by decide
  rw [escape.eq_def]
  split
  case h_6 => split <;> decide
  case h_7 =>
    split
    · next hcontrol =>
      have hlt := toNat_lt_of_isControl hcontrol
      have hhigh := hhex (c.toNat / 16) (by omega)
      have hlow := hhex (c.toNat % 16) (by omega)
      simp [hhigh, hlow]
    · next hcontrol =>
      rw [List.mem_singleton]
      rintro rfl
      exact hcontrol rfl
  all_goals decide

theorem return_not_mem_escapeLines (quotes : Nat) (cs : List Char) :
    '\r' ∉ escapeLines quotes cs := by
  induction cs generalizing quotes with
  | nil => exact List.not_mem_nil
  | cons c cs ih =>
    by_cases hquote : c = '"'
    · subst hquote
      rw [escapeLines]
      split <;> simp [ih]
    · rw [escapeLines_cons hquote, List.mem_append]
      exact not_or.2 ⟨return_not_mem_escape false c, ih 0⟩

theorem return_not_mem_write (h : form.Fits cs) : '\r' ∉ form.write cs := by
  have hlead : '\r' ∉ leadBreak cs := by
    rw [leadBreak]
    split <;> decide
  cases form with
  | basic =>
    have hline : '\r' ∉ escapeLine cs := by
      rw [escapeLine, List.mem_flatMap]
      rintro ⟨c, -, hc⟩
      split at hc
      · simp at hc
      · exact return_not_mem_escape true c hc
    simp [Form.write, hline]
  | literal => simp [Form.write, h.1.return_not_mem]
  | basicLines => simp [Form.write, hlead, return_not_mem_escapeLines]
  | literalLines => simp [Form.write, hlead, h.1.return_not_mem]

theorem return_not_mem_writeString (cs : List Char) : '\r' ∉ writeString cs :=
  return_not_mem_write (fits_form cs)

theorem return_not_mem_writeKey (cs : List Char) : '\r' ∉ writeKey cs := by
  rw [writeKey]
  split
  · next h =>
    rintro hmem
    have hkey := List.all_eq_true.1 (Bool.and_eq_true_iff.1 h).2 _ hmem
    cases hkey
  · exact return_not_mem_write (fits_keyForm cs)

end Returns

end CssModules.Toml
