import CssModules.Proofs.Stylesheet.Acceptance
import CssModules.Proofs.Stylesheet.Scan
import CssModules.Proofs.Text.Trim
import CssModules.Proofs.Text.Words

namespace CssModules

namespace Composition

/-- Whether a text can be one of the names of a composition. -/
structure IsToken (text : String) : Prop where
  ne_empty : text ≠ ""
  separated : ∀ c ∈ text.toList, Text.isSpace c = false ∧ c ≠ ','

instance (text : String) : Decidable (IsToken text) :=
  decidable_of_iff (text ≠ "" ∧ text.toList.all (fun c => !Text.isSpace c && c != ',') = true) (by
    simp only [List.all_eq_true, Bool.and_eq_true, Bool.not_eq_true', bne_iff_ne]
    exact ⟨fun h => ⟨h.1, h.2⟩, fun h => ⟨h.1, h.2⟩⟩)

theorem isToken_of_mem_tokensOf {names : List Char} {text : String} (h : text ∈ tokensOf names) :
    IsToken text := by
  obtain ⟨piece, hpiece, rfl⟩ := List.mem_map.1 h
  obtain ⟨hsplit, hne⟩ := List.mem_filter.1 hpiece
  constructor
  · intro hempty
    have hnil := String.toList_eq_nil_iff.2 hempty
    rw [String.toList_ofList] at hnil
    rw [hnil] at hne
    cases hne
  · intro c hc
    rw [String.toList_ofList] at hc
    have hseparator := Text.eq_false_of_mem_splitWhere hsplit hc
    simpa using hseparator

theorem IsToken.ends {text : String} (h : IsToken text) : ∃ c d rest front,
    text.toList = c :: rest ∧ text.toList = front ++ [d] ∧ Text.isSpace c = false ∧
      Text.isSpace d = false := by
  have hne : text.toList ≠ [] := fun hnil => h.ne_empty (String.toList_eq_nil_iff.1 hnil)
  obtain ⟨c, rest, hfirst⟩ := List.exists_cons_of_ne_nil hne
  obtain ⟨front, d, hlast⟩ := (List.eq_nil_or_concat text.toList).resolve_left hne
  rw [List.concat_eq_append] at hlast
  refine ⟨c, d, rest, front, hfirst, hlast, (h.separated c ?_).1, (h.separated d ?_).1⟩
  · rw [hfirst]
    exact List.mem_cons_self ..
  · rw [hlast]
    exact List.mem_append_right _ (List.mem_singleton_self d)

theorem tokensOf_of_isToken {text : String} (h : IsToken text) : tokensOf text.toList = [text] := by
  have hall : ∀ c ∈ text.toList, (Text.isSpace c || c == ',') = false := by
    intro c hc
    obtain ⟨hspace, hcomma⟩ := h.separated c hc
    simp [hspace, hcomma]
  have hne : text.toList ≠ [] := fun hnil => h.ne_empty (String.toList_eq_nil_iff.1 hnil)
  rw [tokensOf, Text.runs, Text.splitWhere_of_forall hall]
  simp [hne, String.ofList_toList]

/-- The spelling that a class has as a name of a composition, where blanks at the end are cut off. -/
def composedName (name : String) : String := String.ofList (Text.trimEnd name.toList)

/-- Whether a class can be a name of a composition as it is spelled: there are no blanks and commas
in the spelling, but for blanks at the end that make no difference to what it stands for. -/
structure IsComposable (name : String) : Prop where
  isToken : IsToken (composedName name)
  unescape_eq : Identifier.unescape (composedName name) = Identifier.unescape name

instance (name : String) : Decidable (IsComposable name) :=
  decidable_of_iff (IsToken (composedName name) ∧
    Identifier.unescape (composedName name) = Identifier.unescape name)
    ⟨fun h => ⟨h.1, h.2⟩, fun h => ⟨h.1, h.2⟩⟩

theorem IsToken.isComposable {name : String} (h : IsToken name) : IsComposable name := by
  obtain ⟨-, d, -, front, -, hlast, -, hd⟩ := h.ends
  have hself : composedName name = name := by
    rw [composedName, hlast, Text.trimEnd_concat hd, ← hlast, String.ofList_toList]
  constructor
  · rwa [hself]
  · rw [hself]

theorem exists_composedName_append (name : String) : ∃ v, (∀ c ∈ v, Text.isSpace c = true) ∧
    name.toList = (composedName name).toList ++ v := by
  rw [composedName, String.toList_ofList]
  exact Text.exists_trimEnd_append name.toList

end Composition

namespace Stylesheet

/-- What holds of all stylesheets that are read. -/
structure Proper (sheet : Stylesheet) : Prop where
  classes : ∀ name ∈ sheet.localNames, Selector.IsClass name.toList
  tokens : ∀ c ∈ sheet.compositions, ∀ token ∈ c.tokens, Composition.IsToken token

variable {p : Path} {q : Position} {r r' : Reading} {ts before stretch : List Token}
  {names classes : List String} {name : String}

theorem mem_addNames : name ∈ addNames names classes ↔ name ∈ names ∨ name ∈ classes := by
  induction classes generalizing names with
  | nil => simp [addNames]
  | cons c classes ih =>
    have hstep : addNames names (c :: classes) =
        addNames (if names.contains c then names else names ++ [c]) classes := rfl
    rw [hstep, ih, List.mem_cons]
    split
    · next hc =>
      rw [List.contains_iff_mem] at hc
      constructor
      · exact Or.imp_right .inr
      · rintro (hname | rfl | hname)
        · exact .inl hname
        · exact .inl hc
        · exact .inr hname
    · rw [List.mem_append, List.mem_singleton, or_assoc]

theorem prefix_addNames (names classes : List String) : names <+: addNames names classes := by
  induction classes generalizing names with
  | nil => exact List.prefix_rfl
  | cons c classes ih =>
    have hone : names <+: if names.contains c then names else names ++ [c] := by
      split
      · exact List.prefix_rfl
      · exact List.prefix_append ..
    exact hone.trans (ih _)

namespace Reading

theorem openBlock_proper (h : r.found.Proper) (start : Position) :
    (r.openBlock start).found.Proper := by
  rw [openBlock]
  split
  · exact h
  · exact h
  · refine ⟨fun name hname => ?_, h.tokens⟩
    rcases mem_addNames.1 hname with hname | hname
    · exact h.classes name hname
    · obtain ⟨cs, hcs, rfl⟩ := List.mem_map.1 hname
      rw [String.toList_ofList]
      rcases Selector.mem_classesFrom hcs with hnil | ⟨hclass, -⟩
      · cases hnil
      · exact hclass

theorem declare_proper (h : r.found.Proper) (hr : r.declare p = .ok r') : r'.found.Proper := by
  rw [declare] at hr
  split at hr
  · cases hr
    exact h
  · split at hr
    · cases hr
      exact h
    · split at hr
      · dsimp only at hr
        split at hr
        · cases hr
        · cases hr
          refine ⟨h.classes, fun c hc => ?_⟩
          rcases List.mem_append.1 hc with hc | hc
          · exact h.tokens c hc
          · intro token htoken
            rw [List.mem_singleton.1 hc] at htoken
            exact Composition.isToken_of_mem_tokensOf htoken
      · cases hr

theorem step_proper {l : Lexeme} (h : r.found.Proper) (hr : r.step p l = .ok r') :
    r'.found.Proper := by
  cases l with
  | text start chars =>
    cases hr
    exact h
  | opening start =>
    cases hr
    exact openBlock_proper h start
  | semicolon => exact declare_proper h hr
  | closing start =>
    obtain ⟨declared, b, blocks, hdeclared, -, rfl⟩ := step_closing_eq_ok_iff.1 hr
    have hproper := declare_proper h hdeclared
    exact hproper
  | fault => cases hr

theorem foldlM_proper {lexemes : List Lexeme} (h : r.found.Proper)
    (hr : lexemes.foldlM (Reading.step p) r = .ok r') : r'.found.Proper := by
  induction lexemes generalizing r with
  | nil =>
    cases hr
    exact h
  | cons l lexemes ih =>
    rw [List.foldlM_cons, bind_eq_ok_iff] at hr
    obtain ⟨r₁, hl, hr⟩ := hr
    exact ih (step_proper h hl) hr

theorem After.run (h : r.After before stretch)
    (hr : (lexemesOf q ts).foldlM (Reading.step p) r = .ok r') :
    ∃ before' stretch', before' ++ stretch' = before ++ stretch ++ ts ∧
      r'.After before' stretch' := by
  induction ts generalizing q r before stretch with
  | nil =>
    cases hr
    exact ⟨before, stretch, (List.append_nil _).symm, h⟩
  | cons t ts ih =>
    rw [lexemesOf, List.foldlM_append, bind_eq_ok_iff] at hr
    obtain ⟨r₁, ht, hr⟩ := hr
    obtain ⟨before₁, stretch₁, he₁, h₁⟩ := h.step ht
    obtain ⟨before', stretch', he, h'⟩ := ih h₁ hr
    exact ⟨before', stretch', by rw [he, he₁, List.append_assoc]; rfl, h'⟩

end Reading

theorem exists_reading {source : String} {sheet : Stylesheet} (h : parse p source = .ok sheet) :
    ∃ r, (Lexeme.ofText source.toList).foldlM (Reading.step p) .initial = .ok r ∧
      r.finish = .ok sheet := by
  rw [parse_eq_ok_iff, ofLexemes, bind_eq_ok_iff] at h
  exact h

theorem finish_eq_ok_iff {sheet : Stylesheet} :
    r.finish = .ok sheet ↔ r.blocks = [] ∧ r.found = sheet := by
  rw [Reading.finish]
  split
  · next hblocks => simp [hblocks]
  · next hblocks => simp [hblocks]

/-- A stylesheet that is read is proper. -/
theorem parse_proper {source : String} {sheet : Stylesheet} (h : parse p source = .ok sheet) :
    sheet.Proper := by
  obtain ⟨r, hr, hfinish⟩ := exists_reading h
  obtain ⟨-, rfl⟩ := finish_eq_ok_iff.1 hfinish
  have hempty : Reading.initial.found.Proper := ⟨nofun, nofun⟩
  exact Reading.foldlM_proper hempty hr

end Stylesheet

end CssModules
