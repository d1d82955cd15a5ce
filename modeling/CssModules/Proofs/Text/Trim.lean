import CssModules.Text.Space
import Mathlib.Data.List.TakeWhile

namespace CssModules.Text

variable {cs u u' v : List Char} {c d : Char}

theorem trimStart_append (hu : ∀ c ∈ u, isSpace c = true) (cs : List Char) :
    trimStart (u ++ cs) = trimStart cs := by
  induction u with
  | nil => rfl
  | cons c u ih =>
    rw [List.cons_append, trimStart, List.dropWhile_cons_of_pos (hu c (List.mem_cons_self ..))]
    exact ih fun d hd => hu d (List.mem_cons_of_mem _ hd)

theorem trimStart_cons (hc : isSpace c = false) (cs : List Char) : trimStart (c :: cs) = c :: cs :=
  List.dropWhile_cons_of_neg (by simp [hc])

theorem trimStart_of_blank (h : ∀ c ∈ cs, isSpace c = true) : trimStart cs = [] := by
  have happend := trimStart_append h []
  rwa [List.append_nil] at happend

theorem trimEnd_append (hv : ∀ c ∈ v, isSpace c = true) (cs : List Char) :
    trimEnd (cs ++ v) = trimEnd cs := by
  have hreverse : ∀ c ∈ v.reverse, isSpace c = true := by
    intro c hc
    exact hv c (List.mem_reverse.1 hc)
  have happend := trimStart_append hreverse cs.reverse
  rw [trimStart, trimStart] at happend
  rw [trimEnd, trimEnd, List.reverse_append, happend]

theorem trimEnd_concat (hc : isSpace c = false) (cs : List Char) :
    trimEnd (cs ++ [c]) = cs ++ [c] := by
  rw [trimEnd, List.reverse_append]
  have hcons := trimStart_cons hc cs.reverse
  rw [trimStart] at hcons
  simp [hcons]

theorem trimEnd_cons (hc : isSpace c = false) (cs : List Char) :
    trimEnd (c :: cs) = c :: trimEnd cs := by
  have hreverse : (cs.reverse ++ [c]).dropWhile isSpace = cs.reverse.dropWhile isSpace ++ [c] := by
    rw [List.dropWhile_append]
    split
    · next hnil => simp [hc, List.isEmpty_iff.1 hnil]
    · rfl
  rw [trimEnd, trimEnd, List.reverse_cons, hreverse, List.reverse_append]
  rfl

theorem exists_trimEnd_append (cs : List Char) :
    ∃ v, (∀ c ∈ v, isSpace c = true) ∧ cs = trimEnd cs ++ v := by
  refine ⟨(cs.reverse.takeWhile isSpace).reverse, ?_, ?_⟩
  · intro c hc
    exact List.mem_takeWhile_imp (List.mem_reverse.1 hc)
  · rw [trimEnd, ← List.reverse_append, List.takeWhile_append_dropWhile, List.reverse_reverse]

theorem isSpace_blank : ∀ c ∈ [' '], isSpace c = true := List.forall_mem_singleton.2 rfl

theorem trim_append (hu : ∀ c ∈ u, isSpace c = true) (hv : ∀ c ∈ v, isSpace c = true)
    (hfirst : isSpace c = false) (hlast : isSpace d = false) (he : c :: cs = u' ++ [d]) :
    trim (u ++ (c :: cs ++ v)) = c :: cs := by
  rw [trim, trimStart_append hu, List.cons_append, trimStart_cons hfirst, ← List.cons_append,
    trimEnd_append hv, he, trimEnd_concat hlast]

theorem trim_space_cons {more front : List Char} (hfirst : cs = c :: more) (hlast : cs = front ++ [d])
    (hc : isSpace c = false) (hd : isSpace d = false) : trim (' ' :: cs) = cs := by
  have h := trim_append isSpace_blank (v := []) nofun hc hd (hfirst.symm.trans hlast)
  rwa [List.append_nil, ← hfirst] at h

theorem trim_of_blank (h : ∀ c ∈ cs, isSpace c = true) : trim cs = [] := by
  rw [trim, trimStart_of_blank h]
  rfl

theorem trim_unspaced (hu : ∀ c ∈ u, isSpace c = true) (hv : ∀ c ∈ v, isSpace c = true)
    (h : ∀ c ∈ cs, isSpace c = false) : trim (u ++ (cs ++ v)) = cs := by
  cases hcs : cs with
  | nil =>
    apply trim_of_blank
    intro c hc
    exact (List.mem_append.1 hc).elim (hu c) (hv c)
  | cons c rest =>
    have hne : c :: rest ≠ [] := List.cons_ne_nil c rest
    obtain ⟨front, d, he⟩ := (List.eq_nil_or_concat (c :: rest)).resolve_left hne
    rw [List.concat_eq_append] at he
    rw [hcs] at h
    apply trim_append hu hv (h c (List.mem_cons_self ..)) _ he
    apply h d
    rw [he]
    exact List.mem_append_right _ (List.mem_singleton_self d)

end CssModules.Text
