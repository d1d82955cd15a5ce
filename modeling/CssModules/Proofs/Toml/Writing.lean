import CssModules.Proofs.Text.Digits
import CssModules.Proofs.Toml.Merging
import CssModules.Proofs.Toml.Quoting
import CssModules.Toml.Write

namespace CssModules.Toml

variable {c : Char} {cs rest digits : List Char} {n count : Nat} {key : String} {v : Toml}

section Numbers

def DigitLine (cs : List Char) : Prop :=
  ∃ digits rest, (∀ d ∈ digits, d.isDigit = true) ∧ cs = digits ++ '\n' :: rest

theorem fixedDigits_digitLine (h : DigitLine cs) (he : fixedDigits count cs = some (n, rest)) :
    DigitLine rest := by
  obtain ⟨digits, behind, hdigits, rfl⟩ := h
  rw [fixedDigits] at he
  split at he
  · next hall =>
    obtain ⟨-, rfl⟩ := Prod.mk.inj (Option.some.inj he)
    refine ⟨digits.drop count, behind, fun d hd => hdigits d (List.mem_of_mem_drop hd), ?_⟩
    apply List.drop_append_of_le_length
    by_contra hlt
    have hmem : '\n' ∈ (digits ++ '\n' :: behind).take count := by
      rw [List.take_append, List.mem_append]
      obtain ⟨k, hk⟩ := Nat.exists_eq_add_of_lt (Nat.lt_of_not_le hlt)
      right
      rw [hk]
      simp [Nat.add_assoc]
    cases List.all_eq_true.1 hall.2 _ hmem
  · cases he

theorem expect_digitLine (h : DigitLine cs) (hdigit : c.isDigit = false) (hbreak : c ≠ '\n') :
    expect c cs = none := by
  obtain ⟨digits, rest, hdigits, rfl⟩ := h
  cases digits with
  | nil => exact if_neg hbreak.symm
  | cons d digits =>
    refine if_neg ?_
    rintro rfl
    rw [hdigits d (List.mem_cons_self ..)] at hdigit
    cases hdigit

theorem twoDigits_digitLine {low high : Nat} (h : DigitLine cs)
    (he : twoDigits low high cs = some (n, rest)) : DigitLine rest := by
  obtain ⟨⟨m, behind⟩, hm, he⟩ := Option.bind_eq_some_iff.1 he
  dsimp only at he
  split at he
  · cases he
    exact fixedDigits_digitLine h hm
  · cases he

theorem readMoment_digitLine (h : DigitLine cs) : readMoment cs = none := by
  have hdate : readDate cs = none := by
    rw [readDate]
    cases hyear : fixedDigits 4 cs with
    | none => rfl
    | some p =>
      have hrest := fixedDigits_digitLine h hyear
      simp [expect_digitLine hrest]
  have htime : readTime cs = none := by
    rw [readTime]
    cases hhour : twoDigits 0 23 cs with
    | none => rfl
    | some p =>
      have hrest := twoDigits_digitLine h hhour
      simp [expect_digitLine hrest]
  rw [readMoment, hdate, htime]
  rfl

theorem moreDigits_append (hdigits : ∀ d ∈ digits, d.isDigit = true) (rest : List Char) :
    moreDigits Char.isDigit (digits ++ '\n' :: rest) = some (digits, '\n' :: rest) := by
  induction digits with
  | nil => rfl
  | cons d digits ih =>
    obtain ⟨hd, hdigits⟩ := List.forall_mem_cons.1 hdigits
    rw [List.cons_append, moreDigits, hd, ih hdigits]
    · rfl
    · rintro c cs rfl
      cases hd

theorem wholeDigits_toDigits (n : Nat) (rest : List Char) :
    wholeDigits (Nat.toDigits 10 n ++ '\n' :: rest) = some (Nat.toDigits 10 n, '\n' :: rest) := by
  have hzero := Text.toDigits_eq_zero (n := n)
  have hdigits (d : Char) (hd : d ∈ Nat.toDigits 10 n) := Text.isDigit_of_mem_toDigits hd
  cases h : Nat.toDigits 10 n with
  | nil => exact absurd h Nat.toDigits_ne_nil
  | cons d digits =>
    rw [h] at hzero hdigits
    obtain ⟨hd, hdigits⟩ := List.forall_mem_cons.1 hdigits
    by_cases hd0 : d = '0'
    · rw [hzero (congrArg some hd0)]
      rfl
    · rw [List.cons_append, wholeDigits, someDigits, hd, moreDigits_append hdigits]
      · rfl
      · rintro cs he
        exact hd0 (List.cons.inj he).1

theorem valueOf_eq_ofDigitChars (hdigits : ∀ d ∈ digits, d.isDigit = true) :
    valueOf 10 digits = Nat.ofDigitChars 10 digits 0 := by
  have hfold (m : Nat) : digits.foldl (fun n c => n * 10 + digitValue c) m =
      Nat.ofDigitChars 10 digits m := by
    induction digits generalizing m with
    | nil => rfl
    | cons d digits ih =>
      obtain ⟨hd, hdigits⟩ := List.forall_mem_cons.1 hdigits
      rw [List.foldl_cons, ih hdigits, Nat.ofDigitChars_cons, digitValue, if_pos hd, Nat.mul_comm]
  exact hfold 0

theorem exists_toDigits (n : Nat) :
    ∃ d digits, Nat.toDigits 10 n = d :: digits ∧ d.isDigit = true := by
  cases h : Nat.toDigits 10 n with
  | nil => exact absurd h Nat.toDigits_ne_nil
  | cons d digits =>
    exact ⟨d, digits, rfl, Text.isDigit_of_mem_toDigits (n := n) (h ▸ List.mem_cons_self ..)⟩

theorem toDigits_append_ne (hc : c.isDigit = false) : Nat.toDigits 10 n ++ rest ≠ c :: cs := by
  obtain ⟨d, digits, h, hd⟩ := exists_toDigits n
  rw [h]
  intro he
  rw [(List.cons.inj he).1, hc] at hd
  cases hd

theorem sign_toDigits (n : Nat) (rest : List Char) :
    sign (Nat.toDigits 10 n ++ rest) = (false, Nat.toDigits 10 n ++ rest) := by
  rw [sign]
  all_goals
    intro cs
    exact toDigits_append_ne rfl

theorem readFloat_toDigits (n : Nat) (rest : List Char) :
    readFloat (Nat.toDigits 10 n ++ '\n' :: rest) = none := by
  rw [readFloat, sign_toDigits]
  dsimp only
  split
  · next he => exact absurd he (toDigits_append_ne rfl)
  · next he => exact absurd he (toDigits_append_ne rfl)
  · rw [wholeDigits_toDigits]
    rfl

theorem readInteger_toDigits (hfits : fits n = true) (rest : List Char) :
    readInteger (Nat.toDigits 10 n ++ '\n' :: rest) = some ((n : Int), '\n' :: rest) := by
  have hbased {c : Char} {cs : List Char} (hc : c ≠ '\n') :
      Nat.toDigits 10 n ++ '\n' :: rest ≠ '0' :: c :: cs := by
    intro he
    obtain ⟨d, digits, h, -⟩ := exists_toDigits n
    have hzero := Text.toDigits_eq_zero (n := n)
    rw [h] at he hzero
    obtain ⟨rfl, hbehind⟩ := List.cons.inj he
    rw [(List.cons.inj (hzero rfl)).2] at hbehind
    exact hc (List.cons.inj hbehind).1.symm
  have hvalue : valueOf 10 (Nat.toDigits 10 n) = n := by
    rw [valueOf_eq_ofDigitChars fun d hd => Text.isDigit_of_mem_toDigits hd,
      Nat.ofDigitChars_ten_toDigits]
  rw [readInteger]
  · rw [sign_toDigits]
    dsimp only
    rw [wholeDigits_toDigits]
    dsimp only [Option.bind_eq_bind, Option.bind_some]
    rw [hvalue]
    exact if_pos hfits
  all_goals
    intro cs
    exact hbased (by decide)

end Numbers

/-- A text, or a count that can be held. -/
inductive Plain : Toml → Prop
  | text (s : String) : Plain (.string s)
  | count (n : Nat) (hfits : fits n = true) : Plain (.integer n)

namespace Plain

theorem inline_count (n : Nat) : inline (.integer n) = Nat.toDigits 10 n := by
  rw [inline]
  exact Nat.toList_repr

theorem exists_inline (h : Plain v) : ∃ c cs, inline v = c :: cs ∧ Begins c := by
  cases h with
  | text s =>
    obtain ⟨c, cs, he, hc⟩ := (traits s.toList).form.exists_write s.toList
    rw [inline]
    exact ⟨c, cs, he, .inr hc⟩
  | count n =>
    obtain ⟨d, digits, he, hd⟩ := exists_toDigits n
    rw [inline_count]
    exact ⟨d, digits, he, .inl (by simp [isKeyChar, Char.isAlphanum, hd])⟩

theorem readScalar_inline (h : Plain v) (rest : List Char) :
    readScalar (inline v ++ '\n' :: rest) = some (v, '\n' :: rest) := by
  cases h with
  | text s =>
    have hrest : Unquoted ('\n' :: rest) := by constructor <;> simp
    have hread := readString_writeString s.toList hrest
    obtain ⟨c, cs, he, hc⟩ := (traits s.toList).form.exists_write s.toList
    rw [inline]
    rw [writeString, he, List.cons_append] at hread ⊢
    rcases hc with rfl | rfl <;> simp [readScalar, hread]
  | count n hfits =>
    have hline : DigitLine (Nat.toDigits 10 n ++ '\n' :: rest) :=
      ⟨_, rest, fun d hd => Text.isDigit_of_mem_toDigits hd, rfl⟩
    rw [inline_count, readScalar]
    · rw [readMoment_digitLine hline, readFloat_toDigits, readInteger_toDigits hfits]
      rfl
    all_goals
      intro cs
      exact toDigits_append_ne rfl

theorem readValue_inline (h : Plain v) (fuel room : Nat) (rest : List Char) :
    readValue (fuel + 1) room (inline v ++ '\n' :: rest) = some (v, '\n' :: rest) := by
  have hscalar := h.readScalar_inline rest
  obtain ⟨c, cs, he, hc⟩ := h.exists_inline
  rw [he, List.cons_append] at hscalar ⊢
  rw [readValue]
  · exact hscalar
  all_goals
    rintro ds room he
    obtain ⟨rfl, -⟩ := List.cons.inj he
    exact absurd hc (by decide)

end Plain

section Lines

theorem skipBlanks_cons (h : isBlank c = false) (cs : List Char) :
    skipBlanks (c :: cs) = c :: cs := by
  rw [skipBlanks, List.dropWhile_cons_of_neg (by simp [h])]

theorem writeKey_append_ne (hc : ¬Begins c) : writeKey key.toList ++ rest ≠ c :: cs := by
  obtain ⟨d, ds, he, hd⟩ := exists_writeKey key.toList
  rw [he]
  intro he
  exact hc ((List.cons.inj he).1 ▸ hd)

theorem readKey_writeKey (hrest : ∀ c ∈ rest.head?, isKeyChar c = false)
    (hdot : '.' ∉ (skipBlanks rest).head?) (parts : Nat) (key : String) :
    readKey (parts + 1) (writeKey key.toList ++ rest) = some (([], key), skipBlanks rest) := by
  have hpart := readKeyPart_writeKey key.toList hrest
  obtain ⟨c, cs, he, hc⟩ := exists_writeKey key.toList
  rw [he, List.cons_append] at hpart ⊢
  rw [readKey, skipBlanks_cons hc.isBlank, hpart]
  dsimp only [Option.bind_eq_bind, Option.bind_some]
  split
  · next hblanks =>
    rw [hblanks] at hdot
    exact absurd rfl hdot
  · rw [String.ofList_toList]

theorem endLine_break (rest : List Char) : endLine ('\n' :: rest) = some rest := rfl

theorem readEntry_line {s : Reading} {root : Draft.Entries} (hv : Plain v)
    (hset : Draft.set s.header [] key v s.root = some root) (rest : List Char) :
    readEntry s (line key v ++ rest) = some ({ s with root := root }, rest) := by
  have htext : line key v ++ rest =
      writeKey key.toList ++ ' ' :: '=' :: ' ' :: (inline v ++ '\n' :: rest) := by
    simp [line]
  have hkey : readKey (depthLimit - 1)
      (writeKey key.toList ++ ' ' :: '=' :: ' ' :: (inline v ++ '\n' :: rest)) =
        some (([], key), '=' :: ' ' :: (inline v ++ '\n' :: rest)) :=
    readKey_writeKey (by simp; decide) (by simp [skipBlanks, isBlank]) (depthLimit - 2) key
  have hvalue : skipBlanks (' ' :: (inline v ++ '\n' :: rest)) = inline v ++ '\n' :: rest := by
    obtain ⟨c, cs, he, hc⟩ := hv.exists_inline
    rw [he]
    exact skipBlanks_cons hc.isBlank _
  rw [htext, readEntry, hkey]
  dsimp only [Option.bind_eq_bind, Option.bind_some]
  rw [expect, if_pos rfl]
  dsimp only [Option.bind_some]
  rw [hvalue, hv.readValue_inline]
  dsimp only [Option.bind_some]
  rw [endLine_break, hset]
  rfl

theorem readHeader_section {s : Reading} {root : Draft.Entries}
    (hbegin : Draft.beginTable [] key s.root = some root) (rest : List Char) :
    readHeader s (writeKey key.toList ++ ']' :: '\n' :: rest) = some (⟨[key], root⟩, rest) := by
  have hkey : readKey (depthLimit - 1) (writeKey key.toList ++ ']' :: '\n' :: rest) =
      some (([], key), ']' :: '\n' :: rest) :=
    readKey_writeKey (by simp; decide) (by simp [skipBlanks, isBlank]) (depthLimit - 2) key
  rw [readHeader]
  · rw [hkey]
    dsimp only [Option.bind_eq_bind, Option.bind_some]
    rw [expect, if_pos rfl]
    dsimp only [Option.bind_some]
    rw [endLine_break, hbegin]
    rfl
  · intro cs
    exact writeKey_append_ne (by decide)

/-- Whether a text is read to its end, behind what has been read already. -/
def Reads (s : Reading) (cs : List Char) (root : Draft.Entries) : Prop :=
  ∀ fuel, cs.length < fuel → readLines fuel s cs = some root

namespace Reads

variable {s : Reading} {root root' : Draft.Entries}

theorem nil (s : Reading) : Reads s [] s.root := by
  intro fuel hfuel
  obtain ⟨fuel, rfl⟩ := Nat.exists_eq_add_of_lt hfuel
  rfl

theorem blank (h : Reads s cs root) : Reads s ('\n' :: cs) root := by
  intro fuel hfuel
  obtain ⟨fuel, rfl⟩ := Nat.exists_eq_succ_of_ne_zero (Nat.ne_zero_of_lt hfuel)
  exact h fuel (Nat.lt_of_succ_lt_succ hfuel)

theorem entry (hv : Plain v) (hset : Draft.set s.header [] key v s.root = some root')
    (h : Reads { s with root := root' } cs root) : Reads s (line key v ++ cs) root := by
  intro fuel hfuel
  obtain ⟨fuel, rfl⟩ := Nat.exists_eq_succ_of_ne_zero (Nat.ne_zero_of_lt hfuel)
  have hread := readEntry_line hv hset cs
  have hlength : cs.length < fuel := by
    simp [line] at hfuel
    omega
  obtain ⟨c, ds, he, hc⟩ := exists_writeKey key.toList
  have htext : line key v ++ cs = c :: (ds ++ " = ".toList ++ inline v ++ '\n' :: cs) := by
    simp [line, he]
  rw [htext] at hread ⊢
  rw [readLines, skipBlanks_cons hc.isBlank]
  split
  · next he => cases he
  · next he => exact absurd hc ((List.cons.inj he).1 ▸ by decide)
  · next he => exact absurd hc ((List.cons.inj he).1 ▸ by decide)
  · next he => exact absurd hc ((List.cons.inj he).1 ▸ by decide)
  · rw [hread]
    exact h fuel hlength

theorem header (hbegin : Draft.beginTable [] key s.root = some root')
    (h : Reads ⟨[key], root'⟩ cs root) :
    Reads s ('[' :: (writeKey key.toList ++ ']' :: '\n' :: cs)) root := by
  intro fuel hfuel
  obtain ⟨fuel, rfl⟩ := Nat.exists_eq_succ_of_ne_zero (Nat.ne_zero_of_lt hfuel)
  have hlength : cs.length < fuel := by
    simp at hfuel
    omega
  rw [readLines, skipBlanks_cons rfl]
  change (readHeader s _).bind (fun read => readLines fuel read.1 read.2) = some root
  rw [readHeader_section hbegin]
  exact h fuel hlength

end Reads

end Lines

section Sections

variable {fields done : Table} {parts : List (String × Table)} {root : Draft.Entries}

/-- The keys of a table are distinct, and its values are texts and counts. -/
structure Flat (fields : Table) : Prop where
  keys : (fields.map Prod.fst).Nodup
  values : ∀ e ∈ fields, Plain e.2

def ofParts (parts : List (String × Table)) : Table :=
  parts.map fun (key, fields) => (key, .table fields)

def arranged (entries : Table) : Table := entries.foldr (fun (key, v) rest => insert key v rest) []

def drafts (fields : Table) : Draft.Entries := fields.map fun (key, v) => (key, .value v)

def partDraft (fields : Table) : Draft := .table .own (drafts fields)

def partDrafts (parts : List (String × Table)) : Draft.Entries :=
  parts.map fun (key, fields) => (key, partDraft fields)

theorem finishEntries_drafts (fields : Table) :
    Draft.finishEntries (drafts fields) = arranged fields := by
  induction fields with
  | nil => rfl
  | cons e fields ih =>
    rw [drafts, List.map_cons, Draft.finishEntries, ← drafts, ih, Draft.finish]
    rfl

theorem finishEntries_partDrafts (parts : List (String × Table)) :
    Draft.finishEntries (partDrafts parts) =
      arranged (ofParts (parts.map fun (key, fields) => (key, arranged fields))) := by
  induction parts with
  | nil => rfl
  | cons part parts ih =>
    rw [partDrafts, List.map_cons, Draft.finishEntries, ← partDrafts, ih, partDraft, Draft.finish,
      finishEntries_drafts]
    rfl

theorem get?_arranged (entries : Table) (key : String) :
    get? (arranged entries) key = get? entries key := by
  induction entries with
  | nil => rfl
  | cons e entries ih =>
    rw [get?_cons, ← ih]
    exact get?_insert ..

def sectionText (key : String) (fields : Table) : List Char :=
  '[' :: (writeKey key.toList ++ ']' :: '\n' :: fields.flatMap fun (key, v) => line key v)

def documentText (parts : List (String × Table)) : List Char :=
  ['\n'].intercalate (parts.map fun (key, fields) => sectionText key fields)

theorem documentText_singleton (key : String) (fields : Table) :
    documentText [(key, fields)] = sectionText key fields := by
  simp [documentText, List.intercalate]

theorem documentText_cons_cons (key : String) (fields : Table) (part : String × Table) :
    documentText ((key, fields) :: part :: parts) =
      sectionText key fields ++ '\n' :: documentText (part :: parts) := by
  simp [documentText, List.intercalate]

theorem Plain.hasHeader (h : Plain v) : hasHeader v = false := by
  cases h <;> rfl

theorem entryBlocks_plain (h : ∀ e ∈ fields, Plain e.2) (path : List String) :
    entryBlocks path fields = [] := by
  induction fields with
  | nil => rw [entryBlocks]
  | cons e fields ih =>
    obtain ⟨he, hfields⟩ := List.forall_mem_cons.1 h
    obtain ⟨key, v⟩ := e
    rw [entryBlocks, ih hfields]
    cases he <;> rw [blocks] <;> simp

theorem blocks_section (h : ∀ e ∈ fields, Plain e.2) (key : String) :
    blocks [key] (.table fields) = [sectionText key fields] := by
  have hvalues : fields.filter (fun (_, v) => !hasHeader v) = fields := by
    rw [List.filter_eq_self]
    rintro ⟨key, v⟩ he
    exact Bool.not_eq_true' _ ▸ (h _ he).hasHeader
  have hown : (fields.isEmpty || fields.any fun (_, v) => !hasHeader v) = true := by
    cases fields with
    | nil => rfl
    | cons e fields => simp [(h e (List.mem_cons_self ..)).hasHeader]
  rw [blocks, entryBlocks_plain h, List.append_nil, block, if_pos hown, valueLines, hvalues,
    sectionText, pathText]
  simp [List.intercalate]

theorem write_ofParts (h : ∀ part ∈ parts, ∀ e ∈ part.2, Plain e.2) :
    write (ofParts parts) = String.ofList (documentText parts) := by
  have hvalues : valueLines (ofParts parts) = [] := by
    have hnone : (ofParts parts).filter (fun (_, v) => !hasHeader v) = [] := by
      rw [List.filter_eq_nil_iff]
      intro e he
      obtain ⟨part, -, rfl⟩ := List.mem_map.1 he
      simp [hasHeader]
    rw [valueLines, hnone]
    rfl
  have hblocks : entryBlocks [] (ofParts parts) =
      parts.map fun (key, fields) => sectionText key fields := by
    clear hvalues
    induction parts with
    | nil => rw [ofParts, List.map_nil, entryBlocks, List.map_nil]
    | cons part parts ih =>
      obtain ⟨hpart, hparts⟩ := List.forall_mem_cons.1 h
      rw [ofParts, List.map_cons, entryBlocks, List.nil_append, blocks_section hpart, ← ofParts,
        ih hparts]
      rfl
  rw [write, hvalues, hblocks]
  rfl

theorem lookup_map_of_not_mem {α β : Type} {entries : List (String × α)} (f : α → β)
    (h : key ∉ entries.map Prod.fst) :
    (entries.map fun (k, x) => (k, f x)).lookup key = none := by
  rw [List.lookup_eq_none_iff]
  intro e he
  obtain ⟨⟨k, x⟩, hmem, rfl⟩ := List.mem_map.1 he
  rw [bne_iff_ne]
  rintro rfl
  exact h (List.mem_map_of_mem hmem)

theorem replace_concat (h : root.lookup key = none) (old d : Draft) :
    Draft.replace key d (root ++ [(key, old)]) = root ++ [(key, d)] := by
  have hroot : Draft.replace key d root = root := by
    refine (List.map_congr_left ?_).trans (List.map_id root)
    rintro ⟨k, e⟩ he
    have hne := bne_iff_ne.1 (List.lookup_eq_none_iff.1 h _ he)
    exact if_neg hne.symm
  rw [Draft.replace, List.map_append, ← Draft.replace, hroot, List.map_singleton]
  dsimp only
  rw [if_pos rfl]

theorem set_section (hroot : root.lookup key = none) {name : String}
    (hname : name ∉ done.map Prod.fst) :
    Draft.set [key] [] name v (root ++ [(key, partDraft done)]) =
      some (root ++ [(key, partDraft (done ++ [(name, v)]))]) := by
  have hlookup : (root ++ [(key, partDraft done)]).lookup key = some (partDraft done) := by
    rw [List.lookup_append, hroot, List.lookup_cons_self]
    rfl
  have hdotted : Draft.setDotted [] name v .own (drafts done) =
      some (drafts (done ++ [(name, v)])) := by
    have hfree : (drafts done).lookup name = none := lookup_map_of_not_mem Draft.value hname
    rw [Draft.setDotted, Draft.change, List.isEmpty_nil, Bool.true_or, if_pos rfl, Draft.add, hfree,
      drafts, drafts, List.map_append]
    rfl
  rw [Draft.set, Draft.change, hlookup, partDraft]
  dsimp only
  rw [if_pos rfl, Draft.change, hdotted]
  exact congrArg some (replace_concat hroot _ _)

theorem not_mem_of_nodup {α : Type} {before after : List (String × α)} {e : String × α}
    (h : ((before ++ e :: after).map Prod.fst).Nodup) : e.1 ∉ before.map Prod.fst := by
  rw [List.map_append, List.nodup_append] at h
  intro hmem
  exact h.2.2 _ hmem e.1 (List.mem_cons_self ..) rfl

-- The induction is on the lines that are left; `done` are the fields of those that have been read.
theorem Reads.lines {final : Draft.Entries} (hroot : root.lookup key = none)
    (hvalues : ∀ e ∈ fields, Plain e.2) (hkeys : ((done ++ fields).map Prod.fst).Nodup)
    (h : Reads ⟨[key], root ++ [(key, partDraft (done ++ fields))]⟩ cs final) :
    Reads ⟨[key], root ++ [(key, partDraft done)]⟩
      ((fields.flatMap fun (key, v) => line key v) ++ cs) final := by
  induction fields generalizing done with
  | nil => simpa using h
  | cons e fields ih =>
    obtain ⟨name, v⟩ := e
    obtain ⟨he, hvalues⟩ := List.forall_mem_cons.1 hvalues
    have hname : name ∉ done.map Prod.fst := not_mem_of_nodup hkeys
    rw [List.append_cons done] at hkeys h
    rw [List.flatMap_cons, List.append_assoc]
    exact .entry he (set_section hroot hname) (ih hvalues hkeys h)

theorem Reads.sections {s : Reading} {before : List (String × Table)}
    (hs : s.root = partDrafts before) (hflat : ∀ part ∈ parts, Flat part.2)
    (hkeys : ((before ++ parts).map Prod.fst).Nodup) :
    Reads s (documentText parts) (partDrafts (before ++ parts)) := by
  induction parts generalizing before s with
  | nil =>
    rw [List.append_nil, ← hs]
    exact .nil s
  | cons part parts ih =>
    obtain ⟨key, fields⟩ := part
    obtain ⟨hpart, hparts⟩ := List.forall_mem_cons.1 hflat
    have hkey : key ∉ before.map Prod.fst := not_mem_of_nodup hkeys
    have hlookup : (partDrafts before).lookup key = none := lookup_map_of_not_mem partDraft hkey
    have hbegin : Draft.beginTable [] key s.root =
        some (partDrafts before ++ [(key, partDraft [])]) := by
      rw [Draft.beginTable, Draft.change, hs, hlookup]
      rfl
    rw [List.append_cons] at hkeys ⊢
    have hdrafts : partDrafts (before ++ [(key, fields)]) =
        partDrafts before ++ [(key, partDraft fields)] := List.map_append ..
    have hbehind := ih (s := ⟨[key], partDrafts (before ++ [(key, fields)])⟩) rfl hparts hkeys
    have hsection (cs : List Char) (h : Reads ⟨[key], partDrafts (before ++ [(key, fields)])⟩ cs
          (partDrafts (before ++ [(key, fields)] ++ parts))) :
        Reads s (sectionText key fields ++ cs)
          (partDrafts (before ++ [(key, fields)] ++ parts)) := by
      rw [hdrafts] at h
      have hlines : Reads ⟨[key], partDrafts before ++ [(key, partDraft [])]⟩
          ((fields.flatMap fun (key, v) => line key v) ++ cs)
            (partDrafts (before ++ [(key, fields)] ++ parts)) :=
        .lines hlookup hpart.values hpart.keys h
      simpa [sectionText] using Reads.header hbegin hlines
    cases parts with
    | nil =>
      have hread := hsection [] hbehind
      rwa [List.append_nil (sectionText key fields), ← documentText_singleton] at hread
    | cons part parts =>
      rw [documentText_cons_cons]
      exact hsection _ hbehind.blank

theorem unifyBreaks_of_not_mem (h : '\r' ∉ cs) : unifyBreaks cs = cs := by
  induction cs with
  | nil => rfl
  | cons c cs ih =>
    obtain ⟨hc, hcs⟩ := not_or.1 (List.mem_cons.not.1 h)
    rw [unifyBreaks, ih hcs]
    rintro ds rfl
    exact absurd rfl hc

theorem Plain.return_not_mem (h : Plain v) : '\r' ∉ inline v := by
  cases h with
  | text s =>
    rw [inline]
    exact return_not_mem_writeString _
  | count n =>
    rw [inline_count]
    intro hmem
    have hdigit := Text.isDigit_of_mem_toDigits hmem
    cases hdigit

theorem return_not_mem_sectionText (h : ∀ e ∈ fields, Plain e.2) (key : String) :
    '\r' ∉ sectionText key fields := by
  have hlines : ∀ e ∈ fields, '\r' ∉ line e.1 e.2 := by
    intro e he
    simp [line, return_not_mem_writeKey, (h e he).return_not_mem]
  simp only [sectionText, List.mem_cons, List.mem_append, List.mem_flatMap, not_or, not_exists,
    not_and]
  exact ⟨by decide, return_not_mem_writeKey _, by decide, by decide, hlines⟩

theorem return_not_mem_documentText (h : ∀ part ∈ parts, ∀ e ∈ part.2, Plain e.2) :
    '\r' ∉ documentText parts := by
  induction parts with
  | nil => exact List.not_mem_nil
  | cons part parts ih =>
    obtain ⟨key, fields⟩ := part
    obtain ⟨hpart, hparts⟩ := List.forall_mem_cons.1 h
    have hsection := return_not_mem_sectionText hpart key
    cases parts with
    | nil => rwa [documentText_singleton]
    | cons part parts =>
      rw [documentText_cons_cons, List.mem_append, List.mem_cons]
      exact not_or.2 ⟨hsection, not_or.2 ⟨by decide, ih hparts⟩⟩

theorem head?_documentText (parts : List (String × Table)) :
    '\ufeff' ∉ (documentText parts).head? := by
  rcases parts with _ | ⟨⟨key, fields⟩, _ | ⟨part, parts⟩⟩
  · nofun
  · simp [documentText_singleton, sectionText]
  · simp [documentText_cons_cons, sectionText]

/-- What has been written of sections is read as the same sections, with all keys in order. -/
theorem parse?_write (hflat : ∀ part ∈ parts, Flat part.2) (hkeys : (parts.map Prod.fst).Nodup) :
    parse? (write (ofParts parts)) =
      some (arranged (ofParts (parts.map fun (key, fields) => (key, arranged fields)))) := by
  have hvalues : ∀ part ∈ parts, ∀ e ∈ part.2, Plain e.2 := fun part hp => (hflat part hp).values
  have hreads : Reads ⟨[], []⟩ (documentText parts) (partDrafts ([] ++ parts)) :=
    .sections rfl hflat hkeys
  rw [parse?, write_ofParts hvalues, String.toList_ofList]
  have hmark := head?_documentText parts
  split
  · next he =>
    rw [he] at hmark
    exact absurd rfl hmark
  · rw [unifyBreaks_of_not_mem (return_not_mem_documentText hvalues), hreads _ (Nat.lt_succ_self _),
      List.nil_append, Option.map_some, finishEntries_partDrafts]

end Sections

end CssModules.Toml
