import CssModules.Proofs.Naming.Lookup
import CssModules.Proofs.Resolution.Solitary
import CssModules.Resolution.Session

namespace CssModules

/-- The stylesheets that a function reads, with the names that a naming gives their classes. -/
def Naming.library (n : Naming) (read : Path → Except Error Stylesheet)
    (name? : Path → Option String) : Library :=
  ⟨read, n.scopedName name?⟩

namespace Session

variable {n : Naming} {name? : Path → Option String} {read : Path → Except Error Stylesheet}
  {s : Session}

theorem memo_parse (read : Path → Except Error Stylesheet) (p : Path) (s : Session) :
    (parse read p s).2.memo = s.memo := by
  unfold parse
  dsimp only
  split <;> rfl

theorem parse_eq (read : Path → Except Error Stylesheet) (p : Path) (s : Session) :
    (parse read p s).1 = read p := by
  unfold parse
  dsimp only
  split
  · next h => rw [h]
  · next h => rw [h]

theorem findPackage_alike (hn : ∀ d e : Path, d.location = e.location → name? d = name? e)
    (hs : s.memo.Sound name?) (p : Path) :
    Package.Alike (s.findPackage name? p).1 (Package.find name? p) ∧
      (s.findPackage name? p).2.memo.Sound name? := by
  obtain ⟨hfound, hsound⟩ := hs.find hn p
  refine ⟨hfound, ?_⟩
  unfold findPackage
  dsimp only
  split <;> exact hsound

theorem generate_eq (n : Naming)
    (hn : ∀ d e : Path, d.location = e.location → name? d = name? e)
    (hs : s.memo.Sound name?) (className : String) (p : Path) :
    (generate n name? className p s).1 = n.scopedName name? className p ∧
      (generate n name? className p s).2.memo.Sound name? := by
  unfold generate Naming.scopedName
  split
  · obtain ⟨halike, hsound⟩ := findPackage_alike hn hs p
    exact ⟨n.identifier_congr halike className p, hsound⟩
  · exact ⟨rfl, hs⟩

theorem declare_eq (hn : ∀ d e : Path, d.location = e.location → name? d = name? e) (p : Path)
    (names : List String) (tokens : TokenMap) (hs : s.memo.Sound name?) :
    (Task.declare (host read n name?) p names tokens s).1 =
        names.foldl (fun tokens name =>
          tokens.insert (Identifier.unescape name) (n.scopedName name? name p)) tokens ∧
      (Task.declare (host read n name?) p names tokens s).2.memo.Sound name? := by
  induction names generalizing tokens s with
  | nil => exact ⟨rfl, hs⟩
  | cons name names ih =>
    rw [Task.declare, List.foldl_cons]
    dsimp only
    split
    · next hc =>
      rw [TokenMap.insert, if_pos hc]
      exact ih tokens hs
    · obtain ⟨hname, hsound⟩ := generate_eq n hn hs name p
      rw [← hname]
      exact ih _ hsound

/-- A session serves the library of its stylesheets and names. -/
theorem host_serves (read : Path → Except Error Stylesheet) (n : Naming)
    (hn : ∀ d e : Path, d.location = e.location → name? d = name? e) :
    (host read n name?).Serves (n.library read name?) Eq fun s => s.memo.Sound name? where
  parse p _ := parse_eq read p _
  parse_keeps p hs := by
    change ((parse read p _).2.memo).Sound name?
    rw [memo_parse]
    exact hs
  declare p names hs := (declare_eq hn p names .empty hs).1
  declare_keeps p names hs := (declare_eq hn p names .empty hs).2
  released_keeps _ hs := hs

end Session

theorem Library.Coherent.uniform {lib : Library} {files : Set Path} (hc : lib.Coherent files)
    (hn : ∀ className, ∀ p ∈ files, ∀ q ∈ files, p.location = q.location →
      lib.name className p = lib.name className q) : lib.Uniform files Eq where
  toCoherent := hc
  congruence := TokenMap.congruence_eq
  declared {p q} names hp hq hl := by
    unfold Library.declared
    congr 1
    funext tokens name
    rw [hn name p hp q hq hl]

end CssModules
