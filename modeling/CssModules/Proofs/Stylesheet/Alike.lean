import CssModules.Proofs.Stylesheet.Acceptance
import CssModules.Proofs.Text.Trim
import Mathlib.Data.List.Forall2

namespace CssModules

namespace Lexeme

/-- Lexemes that differ in where they stand at most. -/
inductive Alike : Lexeme → Lexeme → Prop where
  | text {place place' : Position} {chars : List Char} :
      Alike (.text place chars) (.text place' chars)
  | opening {place place' : Position} : Alike (.opening place) (.opening place')
  | closing {place place' : Position} : Alike (.closing place) (.closing place')
  | semicolon {place place' : Position} : Alike (.semicolon place) (.semicolon place')
  | fault {place place' : Position} {fault : SyntaxFault} :
      Alike (.fault place fault) (.fault place' fault)

/-- Modes that differ in where something began at most. -/
inductive Mode.Alike : Mode → Mode → Prop where
  | plain : Alike .plain .plain
  | slash {place place' : Position} : Alike (.slash place) (.slash place')
  | comment {place place' : Position} {star : Bool} :
      Alike (.comment place star) (.comment place' star)
  | string {place place' : Position} {quote : Char} {read : List Char} :
      Alike (.string quote place read) (.string quote place' read)
  | stringPair {place place' : Position} {quote : Char} {read : List Char} :
      Alike (.stringPair quote place read) (.stringPair quote place' read)
  | pair {place place' : Position} : Alike (.pair place) (.pair place')

theorem plainStep_alike (here here' : Position) (c : Char) :
    List.Forall₂ Alike (plainStep here c).1 (plainStep here' c).1 ∧
      (plainStep here c).2.Alike (plainStep here' c).2 := by
  simp only [plainStep]
  split_ifs
  · exact ⟨.nil, .slash⟩
  · exact ⟨.nil, .string⟩
  · exact ⟨.nil, .pair⟩
  · exact ⟨.cons .opening .nil, .plain⟩
  · exact ⟨.cons .closing .nil, .plain⟩
  · exact ⟨.cons .semicolon .nil, .plain⟩
  · exact ⟨.cons .text .nil, .plain⟩

theorem Scanner.step_alike {s s' : Scanner} (h : s.mode.Alike s'.mode) (c : Char) :
    List.Forall₂ Alike (s.step c).1 (s'.step c).1 ∧
      (s.step c).2.mode.Alike (s'.step c).2.mode := by
  obtain ⟨mode, q⟩ := s
  obtain ⟨mode', q'⟩ := s'
  cases h with
  | plain => exact plainStep_alike _ _ c
  | slash =>
    simp only [step]
    split_ifs
    · exact ⟨.nil, .comment⟩
    · obtain ⟨hout, hmode⟩ := plainStep_alike (q.next c) (q'.next c) c
      exact ⟨.cons .text hout, hmode⟩
  | comment =>
    simp only [step]
    split_ifs
    · exact ⟨.nil, .plain⟩
    · exact ⟨.nil, .comment⟩
  | string =>
    simp only [step]
    split_ifs
    · exact ⟨.nil, .stringPair⟩
    · exact ⟨.cons .text .nil, .plain⟩
    · exact ⟨.cons .fault .nil, .plain⟩
    · exact ⟨.nil, .string⟩
  | stringPair => exact ⟨.nil, .string⟩
  | pair => exact ⟨.cons .text .nil, .plain⟩

theorem Scanner.finish_alike {s s' : Scanner} (h : s.mode.Alike s'.mode) :
    List.Forall₂ Alike s.finish s'.finish := by
  obtain ⟨mode, q⟩ := s
  obtain ⟨mode', q'⟩ := s'
  cases h with
  | plain => exact .nil
  | slash => exact .cons .text .nil
  | comment => exact .cons .fault .nil
  | string => exact .cons .fault .nil
  | stringPair => exact .cons .fault .nil
  | pair => exact .cons .text .nil

theorem Scanner.lexemes_alike {s s' : Scanner} (h : s.mode.Alike s'.mode) (cs : List Char) :
    List.Forall₂ Alike (s.lexemes cs) (s'.lexemes cs) := by
  induction cs generalizing s s' with
  | nil => exact finish_alike h
  | cons c cs ih =>
    obtain ⟨hout, hmode⟩ := step_alike h c
    rw [lexemes_cons, lexemes_cons]
    exact List.rel_append hout (ih hmode)

end Lexeme

namespace Stylesheet

/-- Outcomes with related results, or with the same fault at one place or another. -/
inductive Parallel {α β : Type} (R : α → β → Prop) :
    Except (Position × SyntaxFault) α → Except (Position × SyntaxFault) β → Prop where
  | ok {a : α} {b : β} (h : R a b) : Parallel R (.ok a) (.ok b)
  | error {place place' : Position} {fault : SyntaxFault} :
      Parallel R (.error (place, fault)) (.error (place', fault))

/-- Results of reading stylesheets at a path: what one declares is made of what the other does, or
both are rejected for the same fault, wherever it is. -/
inductive Corresponds (p : Path) (f : Stylesheet → Stylesheet) :
    Except Error Stylesheet → Except Error Stylesheet → Prop where
  | ok (sheet : Stylesheet) : Corresponds p f (.ok (f sheet)) (.ok sheet)
  | error (place place' : Position) (fault : SyntaxFault) :
      Corresponds p f (.error (.stylesheetSyntax p place fault))
        (.error (.stylesheetSyntax p place' fault))

namespace Parallel

theorem bind {α β γ δ : Type} {R : α → β → Prop} {S : γ → δ → Prop}
    {x : Except (Position × SyntaxFault) α} {y : Except (Position × SyntaxFault) β}
    {f : α → Except (Position × SyntaxFault) γ} {g : β → Except (Position × SyntaxFault) δ}
    (h : Parallel R x y) (hfg : ∀ a b, R a b → Parallel S (f a) (g b)) :
    Parallel S (x >>= f) (y >>= g) := by
  cases h with
  | ok h => exact hfg _ _ h
  | error => exact .error

theorem foldlM {σ τ ι κ : Type} {R : σ → τ → Prop} {I : ι → κ → Prop}
    {f : σ → ι → Except (Position × SyntaxFault) σ} {g : τ → κ → Except (Position × SyntaxFault) τ}
    (hstep : ∀ s t i k, R s t → I i k → Parallel R (f s i) (g t k)) {is : List ι} {ks : List κ}
    (h : List.Forall₂ I is ks) {s : σ} {t : τ} (hs : R s t) :
    Parallel R (is.foldlM f s) (ks.foldlM g t) := by
  induction h generalizing s t with
  | nil => exact .ok hs
  | cons hi _ ih =>
    rw [List.foldlM_cons, List.foldlM_cons]
    apply (hstep _ _ _ _ hs hi).bind
    intro s' t' hs'
    exact ih hs'

theorem parse {p : Path} {source source' : String} {f : Stylesheet → Stylesheet}
    (h : Parallel (fun sheet sheet' => sheet = f sheet')
      (ofLexemes p (Lexeme.ofText source.toList)) (ofLexemes p (Lexeme.ofText source'.toList))) :
    Corresponds p f (Stylesheet.parse p source) (Stylesheet.parse p source') := by
  simp only [Stylesheet.parse]
  generalize ofLexemes p (Lexeme.ofText source.toList) = x at h
  generalize ofLexemes p (Lexeme.ofText source'.toList) = y at h
  cases h with
  | ok h =>
    subst h
    exact .ok _
  | error => exact .error ..

end Parallel

/-- What a text declares behind a stylesheet: its own compositions behind those there, and of its
own classes those that are new. -/
def append (base own : Stylesheet) : Stylesheet where
  localNames := base.localNames ++ own.localNames.filter (· ∉ base.localNames)
  compositions := base.compositions ++ own.compositions

theorem empty_append (own : Stylesheet) : empty.append own = own := by
  simp [append, empty]

theorem append_empty (base : Stylesheet) : base.append empty = base := by
  simp [append, empty]

theorem addNames_append (base names classes : List String) :
    addNames (base ++ names.filter (· ∉ base)) classes =
      base ++ (addNames names classes).filter (· ∉ base) := by
  induction classes generalizing names with
  | nil => rfl
  | cons c classes ih =>
    have hone : (if (base ++ names.filter (· ∉ base)).contains c
        then base ++ names.filter (· ∉ base) else base ++ names.filter (· ∉ base) ++ [c]) =
        base ++ (if names.contains c then names else names ++ [c]).filter (· ∉ base) := by
      by_cases hbase : c ∈ base
      · by_cases hc : c ∈ names <;> simp [hbase, hc]
      · by_cases hc : c ∈ names <;> simp [hbase, hc]
    rw [addNames, List.foldl_cons, hone]
    exact ih _

def Block.Alike (b b' : Block) : Prop := b.kind = b'.kind ∧ b.soleClass = b'.soleClass

namespace Reading

/-- A reading `r` of a text behind a stylesheet, and one `own` of the text by itself. Of what stands
before the text there can be blanks left. -/
structure Behind (base : Stylesheet) (r own : Reading) : Prop where
  found : r.found = base.append own.found
  blocks : List.Forall₂ Block.Alike r.blocks own.blocks
  text : ∃ blanks, (∀ c ∈ blanks, Text.isSpace c = true) ∧ r.text = blanks ++ own.text

namespace Behind

variable {base : Stylesheet} {r own : Reading} {l l' : Lexeme} {p : Path}

theorem trim_eq (h : r.Behind base own) : Text.trim r.text = Text.trim own.text := by
  obtain ⟨blanks, hblanks, htext⟩ := h.text
  rw [htext, Text.trim, Text.trimStart_append hblanks, Text.trim]

theorem kind_eq (h : r.Behind base own) :
    r.blocks.head?.map Block.kind = own.blocks.head?.map Block.kind := by
  obtain ⟨found, blocks, text, start⟩ := r
  obtain ⟨found', blocks', text', start'⟩ := own
  cases h.blocks with
  | nil => rfl
  | cons hb _ => exact congrArg some hb.1

theorem clear (h : r.Behind base own) : r.clear.Behind base own.clear where
  found := h.found
  blocks := h.blocks
  text := ⟨[], nofun, rfl⟩

theorem openBlock (h : r.Behind base own) (place place' : Position) :
    (r.openBlock place).Behind base (own.openBlock place') := by
  rw [Reading.openBlock, Reading.openBlock, h.trim_eq, h.kind_eq]
  split
  · exact ⟨h.found, .cons ⟨rfl, rfl⟩ h.blocks, h.clear.text⟩
  · exact ⟨h.found, .cons ⟨rfl, rfl⟩ h.blocks, h.clear.text⟩
  · refine ⟨?_, .cons ⟨rfl, rfl⟩ h.blocks, h.clear.text⟩
    simp only [h.found, append, addNames_append]

theorem declare (h : r.Behind base own) (p : Path) :
    Parallel (Behind base) (r.declare p) (own.declare p) := by
  rw [Reading.declare, Reading.declare, h.trim_eq]
  split
  · exact .ok h.clear
  · next property value hcut =>
    split
    · exact .ok h.clear
    · obtain ⟨found, blocks, text, start⟩ := r
      obtain ⟨found', blocks', text', start'⟩ := own
      cases h.blocks with
      | nil => exact .error
      | @cons b b' _ _ hb hrest =>
        obtain ⟨kind, sole, place⟩ := b
        obtain ⟨kind', sole', place'⟩ := b'
        obtain ⟨rfl, rfl⟩ : kind = kind' ∧ sole = sole' := hb
        cases kind with
        | rule =>
          cases sole with
          | none => exact .error
          | some localAlias =>
            dsimp only
            split
            · exact .error
            · refine .ok ⟨?_, h.blocks, h.clear.text⟩
              obtain rfl : found = base.append found' := h.found
              simp only [append, List.append_assoc]
        | group | keyframes | other => exact .error

theorem step (h : r.Behind base own) (hl : l.Alike l') :
    Parallel (Behind base) (r.step p l) (own.step p l') := by
  cases hl with
  | text =>
    obtain ⟨blanks, hblanks, htext⟩ := h.text
    refine .ok ⟨h.found, h.blocks, blanks, hblanks, ?_⟩
    simp only [htext, List.append_assoc]
  | opening => exact .ok (h.openBlock _ _)
  | semicolon => exact h.declare p
  | closing =>
    apply (h.declare p).bind
    intro r' own' h'
    obtain ⟨found, blocks, text, start⟩ := r'
    obtain ⟨found', blocks', text', start'⟩ := own'
    cases h'.blocks with
    | nil => exact .error
    | cons _ hblocks => exact .ok ⟨h'.found, hblocks, h'.text⟩
  | fault => exact .error

theorem finish (h : r.Behind base own) :
    Parallel (fun sheet sheet' => sheet = base.append sheet') r.finish own.finish := by
  obtain ⟨found, blocks, text, start⟩ := r
  obtain ⟨found', blocks', text', start'⟩ := own
  cases h.blocks with
  | nil => exact .ok h.found
  | cons => exact .error

/-- What is read of a text behind a stylesheet is what is read of it by itself, with what the
stylesheet declares in front. -/
theorem run {ls ls' : List Lexeme} (h : r.Behind base own) (hls : List.Forall₂ Lexeme.Alike ls ls') :
    Parallel (fun sheet sheet' => sheet = base.append sheet')
      (ls.foldlM (Reading.step p) r >>= Reading.finish)
      (ls'.foldlM (Reading.step p) own >>= Reading.finish) := by
  have hstep (s t : Reading) (l l' : Lexeme) (hs : s.Behind base t) (hl : l.Alike l') :
      Parallel (Behind base) (s.step p l) (t.step p l') := hs.step hl
  apply (Parallel.foldlM hstep hls h).bind
  intro r' own' h'
  exact h'.finish

end Behind

end Reading

end Stylesheet

end CssModules
