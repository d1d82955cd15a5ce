import CssModules.Proofs.Stylesheet.Concatenation
import CssModules.Proofs.Stylesheet.FileNames

namespace CssModules

namespace Stylesheet

open CssModules.Composition

def composingRule (className value : String) : String :=
  "." ++ className ++ " \x7b composes: " ++ value ++ " \x7d"

variable {p : Path} {y name file : String} {ts : List Token} {c d : Char}
  {value v more front : List Char}

theorem parse_composing {text : String} (p : Path) (hy : IsPlainName y.toList)
    (hts : ReadsTo ['\x7d'] (text.toList ++ [' ', '\x7d']) ts) (htext : textOf ts = value ++ v)
    (hv : ∀ c ∈ v, Text.isSpace c = true) (hdelimiters : ∀ t ∈ ts, t.isDelimiter = false)
    (hfirst : value = c :: more) (hlast : value = front ++ [d]) (hc : Text.isSpace c = false)
    (hd : Text.isSpace d = false) (hnames : tokensOf (splitSource p value).1 ≠ []) :
    parse p (composingRule y text) =
      .ok ⟨[y], [⟨y, tokensOf (splitSource p value).1, (splitSource p value).2⟩]⟩ := by
  have hreads : Reads (composingRule y text).toList (('.' :: y.toList ++ [' ']).map .other ++
      ([.opening] ++ ((" composes: ".toList.map .other ++ ts) ++ [.closing]))) := by
    have hend : Reads ['\x7d'] [.closing] := .closing .nil
    have hbody := (readsTo_plain isPlain_property _).append hts
    have hrule := (readsTo_plain hy.isPlain_selector _).finish (.opening (hbody.finish hend))
    simpa [composingRule] using hrule
  have hbody : ∀ t ∈ " composes: ".toList.map Token.other ++ ts, t.isDelimiter = false :=
    List.forall_mem_append.2 ⟨isDelimiter_map_other, hdelimiters⟩
  have hvalue : textOf (" composes: ".toList.map .other ++ ts) =
      " composes: ".toList ++ (value ++ v) := by
    rw [textOf_append, textOf_map_other, htext]
  have hbrings : Brings p _ ⟨.empty, [], []⟩ _ :=
    brings_rule p .empty (by simp) hy hbody hvalue hv hfirst hlast hc hd (.inl rfl) hnames
  rw [String.ofList_toList] at hbrings
  exact parse_of_brings hreads hbrings

theorem splitSource_token (p : Path) (h : IsToken name) :
    splitSource p name.toList = (name.toList, .here) := by
  have hnone : lastFrom false name.toList = none := by
    refine lastFrom_eq_none_iff.2 ⟨?_, by simp⟩
    rintro ⟨c, d, hc, -, hinside⟩
    have hspace := (h.separated c (hinside.subset (List.mem_cons_self ..))).1
    rw [hc] at hspace
    cases hspace
  rw [splitSource, hnone]

def siblingValue (name file : String) : String := name ++ " from \"./" ++ file ++ "\""

theorem toList_siblingValue (name file : String) : (siblingValue name file).toList =
    name.toList ++ [' '] ++ "from".toList ++ [' '] ++ '"' :: (("./" ++ file).toList ++ ['"']) := by
  simp [siblingValue]

theorem splitSource_sibling (p : Path) (name : String)
    (hfrom : ¬HoldsFrom ("./" ++ file).toList) :
    splitSource p (siblingValue name file).toList =
      ((composedName name).toList, fileSource p ("./" ++ file)) := by
  have hblank := Text.isSpace_blank
  have hcut := lastFrom_behind (List.cons_ne_nil ' ' []) hblank (List.cons_ne_nil ' ' []) hblank
    (.inl rfl) hfrom name.toList
  rw [toList_siblingValue, splitSource_file (.inl rfl) hblank hcut p, String.ofList_toList,
    Text.trimEnd_append hblank, composedName, String.toList_ofList]

theorem exists_readsTo_siblingValue (hname : Selector.Name name.toList)
    (hfile : ∀ c ∈ file.toList, c ≠ '"' ∧ c ≠ '\\' ∧ c ≠ '\n') :
    ∃ ts, ReadsTo ['\x7d'] ((siblingValue name file).toList ++ [' ', '\x7d']) ts ∧
      textOf ts = (siblingValue name file).toList ++ [' '] ∧ ∀ t ∈ ts, t.isDelimiter = false := by
  have hfrom : ∀ c ∈ "from ".toList, isPlain c = true := List.all_eq_true.1 rfl
  have hspace : ∀ c ∈ [' '], isPlain c = true := List.all_eq_true.1 rfl
  have hbody : StringBody '"' ("./" ++ file).toList := by
    apply stringBody_of_forall
    rw [String.toList_append]
    exact List.forall_mem_append.2 ⟨by simp, hfile⟩
  have hquoted := (readsTo_plain hfrom _).append
    (.cons (.string (.inl rfl) hbody) (readsTo_plain hspace ['\x7d']))
  obtain ⟨ts, hts, htext, hdelimiters⟩ := exists_readsTo_name hname
    ("from ".toList ++ ('"' :: ("./" ++ file).toList ++ '"' :: ([' '] ++ ['\x7d'])))
  refine ⟨ts ++ ("from ".toList.map .other ++
    .string '"' ("./" ++ file).toList :: [' '].map .other), ?_, ?_, ?_⟩
  · have hread := hts.append hquoted
    simpa [toList_siblingValue] using hread
  · rw [textOf_append, textOf_append, textOf_map_other, htext]
    simp [toList_siblingValue, textOf, Token.chars]
  · rw [List.forall_mem_append, List.forall_mem_append, List.forall_mem_cons]
    exact ⟨hdelimiters, isDelimiter_map_other, rfl, isDelimiter_map_other⟩

theorem parse_sibling (p : Path) (hy : IsPlainName y.toList) (hname : Selector.Name name.toList)
    (h : IsToken (composedName name)) (hfile : ∀ c ∈ file.toList, c ≠ '"' ∧ c ≠ '\\' ∧ c ≠ '\n')
    (hfrom : ¬HoldsFrom ("./" ++ file).toList) :
    parse p (composingRule y (siblingValue name file)) =
      .ok ⟨[y], [⟨y, [composedName name], fileSource p ("./" ++ file)⟩]⟩ := by
  obtain ⟨ts, hts, htext, hdelimiters⟩ := exists_readsTo_siblingValue hname hfile
  obtain ⟨v, -, hv⟩ := exists_composedName_append name
  obtain ⟨c, -, rest, -, hfirst, -, hc, -⟩ := h.ends
  obtain ⟨more, hmore⟩ : ∃ more, (siblingValue name file).toList = c :: more := by
    rw [toList_siblingValue, hv, hfirst]
    exact ⟨_, rfl⟩
  obtain ⟨front, hlast⟩ : ∃ front, (siblingValue name file).toList = front ++ ['"'] := by
    apply List.getLast?_eq_some_iff.1
    rw [toList_siblingValue]
    exact getLast?_quoted _
  have hsource := splitSource_sibling p name hfrom
  have htokens := tokensOf_of_isToken h
  rw [parse_composing p hy hts htext Text.isSpace_blank hdelimiters hmore hlast hc rfl
    (by simp [hsource, htokens]), hsource, htokens]

theorem parse_here (p : Path) (hy : IsPlainName y.toList) (hname : Selector.Name name.toList)
    (h : IsToken (composedName name)) :
    parse p (composingRule y name) = .ok ⟨[y], [⟨y, [composedName name], .here⟩]⟩ := by
  obtain ⟨ts, hts, htext, hdelimiters⟩ := exists_readsTo_name hname ['\x7d']
  obtain ⟨c, d, rest, front, hfirst, hlast, hc, hd⟩ := h.ends
  obtain ⟨v, hblank, hv⟩ := exists_composedName_append name
  rw [hv, List.append_assoc] at htext
  have hsource := splitSource_token p h
  have htokens := tokensOf_of_isToken h
  have hspaces := List.forall_mem_append.2 ⟨hblank, Text.isSpace_blank⟩
  rw [parse_composing p hy hts htext hspaces hdelimiters hfirst hlast hc hd
    (by simp [hsource, htokens]), hsource, htokens]

theorem parse_append {text : String} {sheet : Stylesheet} (hparse : parse p text = .ok sheet)
    (hend : EndsDelimited text) (hy : IsPlainName y.toList) (hfresh : y ∉ sheet.localNames)
    (hname : Selector.Name name.toList) (h : IsToken (composedName name)) :
    parse p (text ++ composingRule y name) =
      .ok ⟨sheet.localNames ++ [y], sheet.compositions ++ [⟨y, [composedName name], .here⟩]⟩ := by
  have hwhole := corresponds_append (.inl hend) hparse (composingRule y name)
  rw [parse_here p hy hname h] at hwhole
  generalize parse p (text ++ composingRule y name) = result at hwhole
  cases hwhole
  simp [append, hfresh]

end Stylesheet

end CssModules
