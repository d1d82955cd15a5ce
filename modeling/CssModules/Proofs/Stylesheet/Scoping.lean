import CssModules.Proofs.Stylesheet.Nesting
import CssModules.Proofs.Stylesheet.Scan

namespace CssModules.Selector

open Stylesheet (StringBody stringBody_of_forall)

namespace Outline

/-- The scope that an outline leaves, `isGlobal` being the one before it. A comma ends a selector
only at the top. -/
def scopeAfter (top isGlobal : Bool) : Outline → Bool
  | nil | backslash => isGlobal
  | char _ rest | escaped _ rest | quoted _ _ rest | dot _ rest | brackets _ rest =>
    rest.scopeAfter top isGlobal
  | comma rest => rest.scopeAfter top (isGlobal && !top)
  | pseudo name rest => rest.scopeAfter top ((scopeOf? name).getD isGlobal)
  | call name inside rest =>
    match scopeOf? name with
    | some _ => rest.scopeAfter top isGlobal
    | none => rest.scopeAfter top (inside.scopeAfter false isGlobal)
  | parens inside rest => rest.scopeAfter top (inside.scopeAfter false isGlobal)

/-- The names behind the dots that are in local scope by the rule of CSS Modules. The innermost
`:global(...)` or `:local(...)` around a dot, if there is one, has set `forced`; without one the
scope is that of the bare pseudo-classes. -/
def locals (top : Bool) (forced : Option Bool) (isGlobal : Bool) : Outline → List (List Char)
  | nil | backslash => []
  | char _ rest | escaped _ rest | quoted _ _ rest | brackets _ rest =>
    rest.locals top forced isGlobal
  | comma rest => rest.locals top forced (isGlobal && !top)
  | dot name rest =>
    (if forced.getD isGlobal then [] else [name]) ++ rest.locals top forced isGlobal
  | pseudo name rest => rest.locals top forced ((scopeOf? name).getD isGlobal)
  | call name inside rest =>
    match scopeOf? name with
    | some scope => inside.locals false (some scope) isGlobal ++ rest.locals top forced isGlobal
    | none =>
      inside.locals false forced isGlobal ++
        rest.locals top forced (inside.scopeAfter false isGlobal)
  | parens inside rest =>
    inside.locals false forced isGlobal ++
      rest.locals top forced (inside.scopeAfter false isGlobal)

def localNames (s : Outline) : List (List Char) :=
  ((s.locals true none false).filter (IsClass ·)).eraseDups

/-- The scope that the scan is in behind an outline: every comma makes it local, and only bare
pseudo-classes set it otherwise. -/
def scanAfter (isGlobal : Bool) : Outline → Bool
  | nil | backslash => isGlobal
  | char _ rest | escaped _ rest | quoted _ _ rest | dot _ rest | brackets _ rest =>
    rest.scanAfter isGlobal
  | comma rest => rest.scanAfter false
  | pseudo name rest => rest.scanAfter ((scopeOf? name).getD isGlobal)
  | call name inside rest =>
    if scopeOf? name = some true then rest.scanAfter isGlobal
    else rest.scanAfter (inside.scanAfter isGlobal)
  | parens inside rest => rest.scanAfter (inside.scanAfter isGlobal)

/-- The names behind the dots that the scan takes: `:global(...)` and brackets are left out, and all
other parentheses make no difference. -/
def exported (isGlobal : Bool) : Outline → List (List Char)
  | nil | backslash => []
  | char _ rest | escaped _ rest | quoted _ _ rest | brackets _ rest => rest.exported isGlobal
  | comma rest => rest.exported false
  | dot name rest => (if isGlobal then [] else [name]) ++ rest.exported isGlobal
  | pseudo name rest => rest.exported ((scopeOf? name).getD isGlobal)
  | call name inside rest =>
    if scopeOf? name = some true then rest.exported isGlobal
    else inside.exported isGlobal ++ rest.exported (inside.scanAfter isGlobal)
  | parens inside rest => inside.exported isGlobal ++ rest.exported (inside.scanAfter isGlobal)

/-- Whether one bit is enough for the scopes of an outline: commas in parentheses and `:local(...)`
stand in local scope only, no bare `:global` is in a `:local(...)`, and no class in local scope is
in a `:global(...)`. -/
def Steady (top : Bool) (forced : Option Bool) (isGlobal : Bool) : Outline → Prop
  | nil | backslash => True
  | char _ rest | escaped _ rest | quoted _ _ rest | dot _ rest | brackets _ rest =>
    rest.Steady top forced isGlobal
  | comma rest =>
    (top = true ∨ forced.getD isGlobal = false) ∧ rest.Steady top forced (isGlobal && !top)
  | pseudo name rest =>
    (forced = none ∨ scopeOf? name ≠ some true) ∧
      rest.Steady top forced ((scopeOf? name).getD isGlobal)
  | call name inside rest =>
    match scopeOf? name with
    | some true => inside.locals false (some true) isGlobal = [] ∧ rest.Steady top forced isGlobal
    | some false =>
      forced.getD isGlobal = false ∧ inside.Steady false (some false) isGlobal ∧
        rest.Steady top forced isGlobal
    | none =>
      inside.Steady false forced isGlobal ∧
        rest.Steady top forced (inside.scopeAfter false isGlobal)
  | parens inside rest =>
    inside.Steady false forced isGlobal ∧ rest.Steady top forced (inside.scopeAfter false isGlobal)

variable {s : Outline} {top isGlobal : Bool} {forced : Option Bool}

/-- Where one bit is enough the scan takes what the rule says. -/
theorem Steady.exported_eq (h : s.Steady top forced isGlobal) (hforced : forced ≠ some true) :
    s.exported (forced.getD isGlobal) = s.locals top forced isGlobal ∧
      s.scanAfter (forced.getD isGlobal) = forced.getD (s.scopeAfter top isGlobal) := by
  -- `hforced` is kept because the scan does not look into a `:global(...)`.
  induction s generalizing top forced isGlobal with
  | nil => exact ⟨rfl, rfl⟩
  | backslash => exact ⟨rfl, rfl⟩
  | char c rest ih => exact ih h hforced
  | escaped c rest ih => exact ih h hforced
  | quoted quote body rest ih => exact ih h hforced
  | brackets inside rest _ ih => exact ih h hforced
  | comma rest ih =>
    obtain ⟨hcomma, hrest⟩ := h
    have hlocal : forced.getD (isGlobal && !top) = false := by
      rcases forced with _ | _ | _
      · rcases hcomma with rfl | hcomma
        · exact Bool.and_false _
        · exact congrArg (· && !top) hcomma
      · rfl
      · exact absurd rfl hforced
    obtain ⟨hexported, hafter⟩ := ih hrest hforced
    rw [hlocal] at hexported hafter
    exact ⟨hexported, hafter⟩
  | dot name rest ih =>
    obtain ⟨hexported, hafter⟩ := ih h hforced
    exact ⟨congrArg (_ ++ ·) hexported, hafter⟩
  | pseudo name rest ih =>
    obtain ⟨hswitch, hrest⟩ := h
    have hscope : (scopeOf? name).getD (forced.getD isGlobal) =
        forced.getD ((scopeOf? name).getD isGlobal) := by
      rcases forced with _ | _ | _
      · rfl
      · rcases hname : scopeOf? name with _ | _ | _
        · rfl
        · rfl
        · rcases hswitch with hswitch | hswitch
          · cases hswitch
          · exact absurd hname hswitch
      · exact absurd rfl hforced
    obtain ⟨hexported, hafter⟩ := ih hrest hforced
    rw [exported, scanAfter, hscope]
    exact ⟨hexported, hafter⟩
  | call name inside rest ihInside ih =>
    rcases hname : scopeOf? name with _ | _ | _
    · simp only [Steady, hname] at h
      obtain ⟨hinside, hrest⟩ := h
      obtain ⟨hexported, hafter⟩ := ih hrest hforced
      obtain ⟨hexportedInside, hafterInside⟩ := ihInside hinside hforced
      simp only [exported, scanAfter, locals, scopeAfter, hname, reduceCtorEq, if_false]
      rw [hexportedInside, hafterInside, hexported]
      exact ⟨rfl, hafter⟩
    · simp only [Steady, hname] at h
      obtain ⟨hlocal, hinside, hrest⟩ := h
      obtain ⟨hexported, hafter⟩ := ih hrest hforced
      obtain ⟨hexportedInside, hafterInside⟩ := ihInside hinside nofun
      rw [hlocal] at hexported hafter
      rw [Option.getD_some] at hexportedInside hafterInside
      simp only [exported, scanAfter, locals, scopeAfter, hname, Option.some.injEq, reduceCtorEq,
        if_false, hlocal]
      rw [hexportedInside, hafterInside, Option.getD_some, hexported]
      exact ⟨rfl, hafter⟩
    · simp only [Steady, hname] at h
      obtain ⟨hinside, hrest⟩ := h
      simp only [exported, scanAfter, locals, scopeAfter, hname, if_true, hinside,
        List.nil_append]
      exact ih hrest hforced
  | parens inside rest ihInside ih =>
    obtain ⟨hinside, hrest⟩ := h
    obtain ⟨hexported, hafter⟩ := ih hrest hforced
    obtain ⟨hexportedInside, hafterInside⟩ := ihInside hinside hforced
    rw [exported, scanAfter, locals, scopeAfter, hexportedInside, hafterInside, hexported]
    exact ⟨rfl, hafter⟩

/-- Whether every parenthesis in the text of an outline opens or closes one of its parts: none is
escaped or in a string. -/
def Level : Outline → Prop
  | nil | backslash => True
  | char _ rest | comma rest => rest.Level
  | escaped c rest => c ≠ '(' ∧ c ≠ ')' ∧ rest.Level
  | quoted _ body rest => '(' ∉ body ∧ ')' ∉ body ∧ rest.Level
  | dot name rest | pseudo name rest => '(' ∉ name ∧ ')' ∉ name ∧ rest.Level
  | call name inside rest => '(' ∉ name ∧ ')' ∉ name ∧ inside.Level ∧ rest.Level
  | parens inside rest | brackets inside rest => inside.Level ∧ rest.Level

/-- Whether an outline has nothing that the scan takes for something else: outside of the names of
classes no character that it notices is escaped or in a string, the name of a pseudo-class has no
escape, what is in a `:global(...)` is level, and the first `]` behind a `[` closes it. -/
def Plain : Outline → Prop
  | nil | backslash => True
  | char _ rest | comma rest | dot _ rest => rest.Plain
  | escaped c rest => c ∉ noticed ∧ rest.Plain
  | quoted _ body rest => (∀ c ∈ body, c ∉ noticed) ∧ rest.Plain
  | pseudo name rest => '\\' ∉ name ∧ rest.Plain
  | call name inside rest =>
    '\\' ∉ name ∧ (if scopeOf? name = some true then inside.Level else inside.Plain) ∧ rest.Plain
  | parens inside rest => inside.Plain ∧ rest.Plain
  | brackets inside rest => ']' ∉ inside.text ∧ rest.Plain

variable {after : List Char}

theorem Level.skipParens_text (hlevel : s.Level) (h : s.Reads after) (depth : Nat)
    (cs : List Char) :
    skipParens (depth + 1) (s.text ++ cs) = skipParens (depth + 1) cs := by
  induction s generalizing after depth cs with
  | nil => rfl
  | backslash => exact skipParens_cons (by decide) (by decide)
  | char c rest ih =>
    obtain ⟨hc, hrest⟩ := h
    rw [text, List.cons_append, skipParens_cons, ih hlevel hrest]
    · rintro rfl
      exact hc (by decide)
    · rintro rfl
      exact hc (by decide)
  | escaped c rest ih =>
    obtain ⟨hopen, hclose, hlevel⟩ := hlevel
    rw [text, List.cons_append, List.cons_append, skipParens_cons (by decide) (by decide),
      skipParens_cons hopen hclose, ih hlevel h]
  | quoted quote body rest ih =>
    obtain ⟨hopen, hclose, hlevel⟩ := hlevel
    obtain ⟨hquote, -, hrest⟩ := h
    have hskip {cs : List Char} :
        skipParens (depth + 1) (quote :: cs) = skipParens (depth + 1) cs := by
      rcases hquote with rfl | rfl <;> exact skipParens_cons (by decide) (by decide)
    rw [text, List.cons_append, List.append_assoc, List.cons_append, hskip,
      skipParens_append hopen hclose, hskip, ih hlevel hrest]
  | comma rest ih =>
    rw [text, List.cons_append, skipParens_cons (by decide) (by decide), ih hlevel h]
  | dot name rest ih =>
    obtain ⟨hopen, hclose, hlevel⟩ := hlevel
    rw [text, List.cons_append, List.append_assoc, skipParens_cons (by decide) (by decide),
      skipParens_append hopen hclose, ih hlevel h.2]
  | pseudo name rest ih =>
    obtain ⟨hopen, hclose, hlevel⟩ := hlevel
    rw [text, List.cons_append, List.append_assoc, skipParens_cons (by decide) (by decide),
      skipParens_append hopen hclose, ih hlevel h.2.2]
  | call name inside rest ihInside ih =>
    obtain ⟨hopen, hclose, hinside, hlevel⟩ := hlevel
    simp only [text, List.cons_append, List.append_assoc]
    rw [skipParens_cons (by decide) (by decide), skipParens_append hopen hclose, skipParens_opening,
      ihInside hinside h.2.1, skipParens_closing, ih hlevel h.2.2]
  | parens inside rest ihInside ih =>
    simp only [text, List.cons_append, List.append_assoc]
    rw [skipParens_opening, ihInside hlevel.1 h.1, skipParens_closing, ih hlevel.2 h.2]
  | brackets inside rest ihInside ih =>
    simp only [text, List.cons_append, List.append_assoc]
    rw [skipParens_cons (by decide) (by decide), ihInside hlevel.1 h.1,
      skipParens_cons (by decide) (by decide), ih hlevel.2 h.2]

/-- What the scan does with the text of an outline. -/
theorem Plain.classesFrom_text (hplain : s.Plain) (h : s.Reads after) (isGlobal : Bool)
    (names : List (List Char)) :
    classesFrom isGlobal names.eraseDups (s.text ++ after) =
      classesFrom (s.scanAfter isGlobal)
        (names ++ (s.exported isGlobal).filter (IsClass ·)).eraseDups after := by
  induction s generalizing after names isGlobal with
  | nil => rw [exported, List.filter_nil, List.append_nil]; rfl
  | backslash =>
    rw [exported, List.filter_nil, List.append_nil]
    exact classesFrom_of_not_noticed (by decide)
  | char c rest ih =>
    have hc : c ∉ noticed := fun hc => h.1 (noticed_subset hc)
    rw [text, List.cons_append, classesFrom_of_not_noticed hc, ih hplain h.2]
    rfl
  | escaped c rest ih =>
    rw [text, List.cons_append, List.cons_append, classesFrom_of_not_noticed (by decide),
      classesFrom_of_not_noticed hplain.1, ih hplain.2 h]
    rfl
  | quoted quote body rest ih =>
    obtain ⟨hquote, -, hrest⟩ := h
    have hskip : quote ∉ noticed := by rcases hquote with rfl | rfl <;> decide
    rw [text, List.cons_append, List.append_assoc, List.cons_append,
      classesFrom_of_not_noticed hskip, classesFrom_append_of_not_noticed hplain.1,
      classesFrom_of_not_noticed hskip, ih hplain.2 hrest]
    rfl
  | comma rest ih =>
    rw [text, List.cons_append, classesFrom_comma, ih hplain h]
    rfl
  | dot name rest ih =>
    rw [text, List.cons_append, List.append_assoc, classesFrom_dot h.1, ih hplain h.2, exported,
      List.filter_append, List.append_assoc]
    rfl
  | pseudo name rest ih =>
    obtain ⟨hname, hopen, hrest⟩ := h
    rw [text, List.cons_append, List.append_assoc, classesFrom_colon,
      pseudo_bare hname hplain.1 hopen, ih hplain.2 hrest]
    rfl
  | call name inside rest ihInside ih =>
    obtain ⟨hname, hinside, hrest⟩ := h
    obtain ⟨hbackslash, hplainInside, hplain⟩ := hplain
    simp only [text, List.cons_append, List.append_assoc]
    rw [classesFrom_colon, pseudo_call hname hbackslash]
    rcases hscope : scopeOf? name with _ | _ | _
    · rw [if_neg (by simp [hscope])] at hplainInside
      rw [classesFrom_of_not_noticed (by decide), ihInside hplainInside hinside,
        classesFrom_of_not_noticed (by decide), ih hplain hrest]
      simp [exported, scanAfter, hscope]
    · rw [if_neg (by simp [hscope])] at hplainInside
      dsimp only
      rw [ihInside hplainInside hinside, classesFrom_of_not_noticed (by decide), ih hplain hrest]
      simp [exported, scanAfter, hscope]
    · rw [if_pos hscope] at hplainInside
      dsimp only
      rw [hplainInside.skipParens_text hinside 0, skipParens_closing_last, ih hplain hrest]
      simp [exported, scanAfter, hscope]
  | parens inside rest ihInside ih =>
    simp only [text, List.cons_append, List.append_assoc]
    rw [classesFrom_of_not_noticed (by decide), ihInside hplain.1 h.1,
      classesFrom_of_not_noticed (by decide), ih hplain.2 h.2, exported, List.filter_append,
      List.append_assoc]
    rfl
  | brackets inside rest _ ih =>
    simp only [text, List.cons_append, List.append_assoc]
    rw [classesFrom_brackets hplain.1, ih hplain.2 h.2]
    rfl

end Outline

/-- The names that the scan finds are those of classes behind dots, each once. A closed text has one
outline. If it is plain the scan takes from it what `Outline.exported` says, and if one bit is
enough for its scopes these are the classes in local scope by the rule. -/
theorem localClasses_scoping {text : List Char} (hclosed : Closed true text) :
    (localClasses text).Nodup ∧
      (∀ name ∈ localClasses text, IsClass name ∧ '.' :: name <:+: text) ∧
      (∃! s : Outline, s.text = text ∧ s.Reads []) ∧
      ∀ s : Outline, s.text = text → s.Reads [] → s.Plain →
        localClasses text = ((s.exported false).filter (IsClass ·)).eraseDups ∧
          (s.Steady true none false → localClasses text = s.localNames) := by
  refine ⟨nodup_classesFrom List.nodup_nil, fun name hname => ?_,
    Outline.existsUnique_reads hclosed, ?_⟩
  · exact (mem_classesFrom hname).resolve_left List.not_mem_nil
  · rintro s rfl hreads hplain
    have hscan : localClasses s.text = ((s.exported false).filter (IsClass ·)).eraseDups := by
      have h := hplain.classesFrom_text hreads false []
      rw [List.append_nil, List.nil_append, classesFrom] at h
      exact h
    refine ⟨hscan, fun hsteady => ?_⟩
    rw [hscan, Outline.localNames, ← (hsteady.exported_eq (by simp)).1]
    rfl

theorem localClasses_scoping_nested :
    ∃ s : Outline, s.text = ":global .a, .b:not(.c, [title=\".d\"]) :local(.e)".toList ∧
      s.Reads [] ∧ s.Plain ∧ s.Steady true none false ∧
      localClasses s.text = ["b".toList, "c".toList, "e".toList] := by
  let value : Outline := .char 't' (.char 'i' (.char 't' (.char 'l' (.char 'e' (.char '='
    (.quoted '"' ['.', 'd'] .nil))))))
  let arguments : Outline := .dot ['c'] (.comma (.char ' ' (.brackets value .nil)))
  let s : Outline := .pseudo "global".toList (.char ' ' (.dot ['a'] (.comma (.char ' '
    (.dot ['b'] (.call "not".toList arguments (.char ' '
      (.call "local".toList (.dot ['e'] .nil) .nil))))))))
  have hbody : StringBody '"' ['.', 'd'] := stringBody_of_forall (by simp)
  have hreads : s.Reads [] := by
    simp [s, arguments, value, Outline.Reads, Outline.text, structural, delimiters, longestName_iff,
      nameFrom, isNameChar, hbody]
  have hplain : s.Plain := by
    simp [s, arguments, value, Outline.Plain, Outline.text, scopeOf?]
  have hsteady : s.Steady true none false := by
    simp [s, arguments, Outline.Steady, Outline.scopeAfter, scopeOf?]
  refine ⟨s, by decide, hreads, hplain, hsteady, ?_⟩
  have hclosed : Closed true s.text := hreads.closed fun _ => rfl
  rw [((localClasses_scoping hclosed).2.2.2 s rfl hreads hplain).2 hsteady]
  decide

/-- The scan goes on behind the first `]`, also of a quoted one; a comma in parentheses makes what
follows local; and a `:local(...)` in global scope has no effect. -/
theorem localClasses_ne_localNames :
    (∃ s : Outline, s.text = "a[title=\"x].b\"]".toList ∧ s.Reads [] ∧ s.localNames = [] ∧
        localClasses s.text = ["b".toList]) ∧
      (∃ s : Outline, s.text = ":global .a:is(.b,.c)".toList ∧ s.Reads [] ∧ s.localNames = [] ∧
        localClasses s.text = ["c".toList]) ∧
      ∃ s : Outline, s.text = ":global .a :local(.b)".toList ∧ s.Reads [] ∧
        s.localNames = ["b".toList] ∧ localClasses s.text = [] := by
  refine ⟨?_, ?_, ?_⟩
  · have hbody : StringBody '"' ['x', ']', '.', 'b'] := stringBody_of_forall (by simp)
    refine ⟨.char 'a' (.brackets (.char 't' (.char 'i' (.char 't' (.char 'l' (.char 'e' (.char '='
      (.quoted '"' ['x', ']', '.', 'b'] .nil))))))) .nil), by decide, ?_, by decide, ?_⟩
    · simp [Outline.Reads, structural, delimiters, hbody]
    · simp [Outline.text, localClasses, classesFrom, nameFrom, isNameChar, isClassName]
  · refine ⟨.pseudo "global".toList (.char ' ' (.dot ['a'] (.call "is".toList
      (.dot ['b'] (.comma (.dot ['c'] .nil))) .nil))), by decide, ?_, by decide, ?_⟩
    · simp [Outline.Reads, Outline.text, structural, delimiters, longestName_iff, nameFrom,
        isNameChar]
    · simp [Outline.text, localClasses, classesFrom, pseudo, nameFrom, isNameChar, isClassName]
  · refine ⟨.pseudo "global".toList (.char ' ' (.dot ['a'] (.char ' ' (.call "local".toList
      (.dot ['b'] .nil) .nil)))), by decide, ?_, by decide, ?_⟩
    · simp [Outline.Reads, Outline.text, structural, delimiters, longestName_iff, nameFrom,
        isNameChar]
    · simp [Outline.text, localClasses, classesFrom, pseudo, nameFrom, isNameChar, isClassName]

end CssModules.Selector
