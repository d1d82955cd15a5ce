import CssModules.Error
import CssModules.Files.Tree
import CssModules.Lookup
import Mathlib.Tactic.SplitIfs

namespace CssModules.FileTree

variable {t t' : FileTree} {cwd place place' q : Place} {p : Path} {node : Node}
  {pieces : List (List Char)} {content : ByteArray}

theorem node?_nil (t : FileTree) : t.node? [] = some .directory := rfl

theorem node?_put_self (t : FileTree) (node : Node) (h : place ≠ []) :
    (t.put place node).node? place = some node := by
  rw [node?, put, if_neg (by simpa using h), List.lookup_cons_self]

theorem node?_put_of_ne (t : FileTree) (node : Node) (h : q ≠ place) :
    (t.put place node).node? q = t.node? q := by
  rw [node?, node?, put, List.lookup_cons, beq_eq_false_iff_ne.2 h, lookup_filter_ne,
    beq_eq_false_iff_ne.2 h, if_neg Bool.false_ne_true]

theorem directory_put (node : Node) (hq : t.node? q = some .directory)
    (hput : t.node? place ≠ some .directory) : (t.put place node).node? q = some .directory := by
  have hne : q ≠ place := by
    rintro rfl
    exact hput hq
  rw [node?_put_of_ne t node hne]
  exact hq

-- Only directories matter on the way: a walk that succeeds passes nothing else.
theorem walk_of_directories
    (hkept : ∀ r, t.node? r = some .directory → t'.node? r = some .directory)
    (h : t.walk q pieces = .ok place) : t'.walk q pieces = .ok place := by
  induction pieces generalizing q with
  | nil => exact h
  | cons piece pieces ih =>
    rw [walk] at h ⊢
    split at h
    · cases h
    · cases h
    · next hq =>
      rw [hkept q hq]
      dsimp only
      split_ifs at h ⊢
      · exact ih h
      · exact ih h
      · exact ih h

theorem locate_of_directories
    (hkept : ∀ r, t.node? r = some .directory → t'.node? r = some .directory)
    (h : t.locate cwd p = .ok place) : t'.locate cwd p = .ok place := by
  rw [locate] at h ⊢
  split at h
  · exact walk_of_directories hkept h
  · exact walk_of_directories hkept h
  · cases h
  · exact walk_of_directories hkept h

theorem locate_put (node : Node) (hput : t.node? place ≠ some .directory)
    (h : t.locate cwd p = .ok place') : (t.put place node).locate cwd p = .ok place' :=
  locate_of_directories (fun _ hr => directory_put node hr hput) h

/-- A place that a path leads to and that a file can be written at. -/
structure WritableAt (t : FileTree) (cwd : Place) (p : Path) (place : Place) : Prop where
  located : t.locate cwd p = .ok place
  no_directory : t.node? place ≠ some .directory
  named : ∃ piece, p.split.2.getLast? = some piece ∧ Path.isIdle piece = false
  parent : t.node? place.dropLast = some .directory

theorem write_eq_ok (h : t.write cwd p content = .ok t') :
    ∃ place, t.WritableAt cwd p place ∧ t' = t.put place (.file content) := by
  obtain ⟨place, hplace, h⟩ := bind_eq_ok_iff.1 h
  split at h
  · cases h
  · next piece hpiece hnode =>
    split at h
    · cases h
    · next hidle =>
      split at h
      · next hparent =>
        cases h
        exact ⟨place, ⟨hplace, hnode, ⟨piece, hpiece, by simpa using hidle⟩, hparent⟩, rfl⟩
      · cases h
      · cases h
  · cases h

namespace WritableAt

theorem write_eq (h : t.WritableAt cwd p place) (content : ByteArray) :
    t.write cwd p content = .ok (t.put place (.file content)) := by
  obtain ⟨piece, hpiece, hidle⟩ := h.named
  refine bind_eq_ok_iff.2 ⟨place, h.located, ?_⟩
  rw [hpiece, h.parent]
  split
  · next hnode => exact absurd hnode h.no_directory
  · next he _ =>
    cases he
    rw [hidle]
    rfl
  · next he _ => cases he

theorem ne_nil (h : t.WritableAt cwd p place) : place ≠ [] := by
  rintro rfl
  exact h.no_directory t.node?_nil

theorem put (h : t.WritableAt cwd p place) (content : ByteArray) :
    (t.put place (.file content)).WritableAt cwd p place where
  located := locate_put _ h.no_directory h.located
  no_directory := by
    rw [node?_put_self t _ h.ne_nil]
    nofun
  named := h.named
  parent := directory_put _ h.parent h.no_directory

theorem find_put (h : t.WritableAt cwd p place) (node : Node) :
    (t.put place node).find cwd p = .ok node := by
  refine bind_eq_ok_iff.2 ⟨place, locate_put node h.no_directory h.located, ?_⟩
  rw [node?_put_self t node h.ne_nil]

theorem readText_put (h : t.WritableAt cwd p place) (text : String) :
    (t.put place (.file text.toUTF8)).readText cwd p = .ok text := by
  refine bind_eq_ok_iff.2 ⟨text.toUTF8, bind_eq_ok_iff.2 ⟨_, h.find_put _, rfl⟩, ?_⟩
  have htext : String.fromUTF8? text.toUTF8 = some text := dif_pos text.isValidUTF8
  rw [htext]

end WritableAt

def Along (t : FileTree) : Place → List (List Char) → Prop
  | _, [] => True
  | place, piece :: pieces =>
    if Path.isIdle piece then t.Along place pieces
    else if piece == ['.', '.'] then t.Along place.dropLast pieces
    else t.node? (place ++ [String.ofList piece]) = some .directory ∧
      t.Along (place ++ [String.ofList piece]) pieces

theorem Along.put (h : t.Along q pieces) (hput : t.node? place ≠ some .directory) (node : Node) :
    (t.put place node).Along q pieces := by
  induction pieces generalizing q with
  | nil => trivial
  | cons piece pieces ih =>
    rw [Along] at h ⊢
    split_ifs at h ⊢
    · exact ih h
    · exact ih h
    · exact ⟨directory_put node h.1 hput, ih h.2⟩

theorem Along.makeWalk_eq (h : t.Along q pieces) : t.makeWalk q pieces = .ok t := by
  induction pieces generalizing q with
  | nil => rfl
  | cons piece pieces ih =>
    rw [Along] at h
    rw [makeWalk]
    split_ifs at h ⊢
    · exact ih h
    · exact ih h
    · dsimp only
      rw [h.1]
      exact ih h.2

theorem along_of_makeWalk (h : t.makeWalk q pieces = .ok t') :
    t'.Along q pieces ∧ ∀ r node, t.node? r = some node → t'.node? r = some node := by
  induction pieces generalizing t q with
  | nil =>
    cases h
    exact ⟨trivial, fun _ _ => id⟩
  | cons piece pieces ih =>
    rw [makeWalk] at h
    rw [Along]
    split_ifs at h ⊢
    · exact ih h
    · exact ih h
    · dsimp only at h
      split at h
      · next hnode =>
        obtain ⟨halong, hkept⟩ := ih h
        exact ⟨⟨hkept _ _ hnode, halong⟩, hkept⟩
      · cases h
      · next hnode =>
        obtain ⟨halong, hkept⟩ := ih h
        refine ⟨⟨hkept _ _ (node?_put_self t _ (by simp)), halong⟩, fun r node hr => ?_⟩
        refine hkept r node ?_
        rw [node?_put_of_ne t _ (fun he => by rw [he, hnode] at hr; cases hr)]
        exact hr

/-- Where directories have been made they need not be made again, whatever file is put beside
them. -/
theorem makeDirectories_put (h : t.makeDirectories cwd p = .ok t')
    (hput : t'.node? place ≠ some .directory) (node : Node) :
    (t'.put place node).makeDirectories cwd p = .ok (t'.put place node) := by
  rw [makeDirectories] at h ⊢
  split at h
  · exact ((along_of_makeWalk h).1.put hput node).makeWalk_eq
  · exact ((along_of_makeWalk h).1.put hput node).makeWalk_eq

def Within (t t' : FileTree) : Prop := ∀ r node, t.node? r = some node → t'.node? r = some node

namespace Within

theorem find (h : t.Within t') (hfind : t.find cwd p = .ok node) : t'.find cwd p = .ok node := by
  obtain ⟨place, hplace, hnode⟩ := bind_eq_ok_iff.1 hfind
  refine bind_eq_ok_iff.2 ⟨place, locate_of_directories (fun r => h r .directory) hplace, ?_⟩
  split at hnode
  · next n hn =>
    rw [h place n hn]
    exact hnode
  · cases hnode

theorem read (h : t.Within t') (hread : t.read cwd p = .ok content) :
    t'.read cwd p = .ok content := by
  obtain ⟨n, hn, hcontent⟩ := bind_eq_ok_iff.1 hread
  exact bind_eq_ok_iff.2 ⟨n, h.find hn, hcontent⟩

end Within

theorem within_of_makeDirectories (h : t.makeDirectories cwd p = .ok t') : t.Within t' := by
  rw [makeDirectories] at h
  split at h
  · exact (along_of_makeWalk h).2
  · exact (along_of_makeWalk h).2

end CssModules.FileTree
