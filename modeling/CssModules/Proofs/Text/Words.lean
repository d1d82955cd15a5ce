import CssModules.Text.Space

namespace CssModules.Text

variable {isSeparator : Char → Bool}

theorem splitWhere_append_cons {c : Char} (hc : isSeparator c) (cs ds : List Char) :
    splitWhere isSeparator (cs ++ c :: ds) =
      splitWhere isSeparator cs ++ splitWhere isSeparator ds := by
  induction cs with
  | nil => simp [splitWhere, hc]
  | cons d cs ih =>
    rw [List.cons_append, splitWhere, splitWhere, ih]
    split
    · rfl
    · cases hs : splitWhere isSeparator cs with
      | nil => exact absurd hs (splitWhere_ne_nil _ cs)
      | cons p ps => rfl

theorem splitWhere_of_forall {cs : List Char} (h : ∀ c ∈ cs, isSeparator c = false) :
    splitWhere isSeparator cs = [cs] := by
  induction cs with
  | nil => rfl
  | cons c cs ih =>
    rw [splitWhere, h c (List.mem_cons_self ..), ih fun d hd => h d (List.mem_cons_of_mem _ hd)]
    rfl

theorem eq_false_of_mem_splitWhere {cs p : List Char} (hp : p ∈ splitWhere isSeparator cs) {c : Char}
    (hc : c ∈ p) : isSeparator c = false := by
  induction cs generalizing p with
  | nil =>
    obtain rfl := List.mem_singleton.1 hp
    cases hc
  | cons d cs ih =>
    rw [splitWhere] at hp
    split at hp
    · obtain rfl | hp := List.mem_cons.1 hp
      · cases hc
      · exact ih hp hc
    · next hd =>
      split at hp
      · next hn => exact absurd hn (splitWhere_ne_nil _ cs)
      · next q qs hq =>
        rw [hq] at ih
        obtain rfl | hp := List.mem_cons.1 hp
        · obtain rfl | hc := List.mem_cons.1 hc
          · exact Bool.eq_false_iff.2 hd
          · exact ih (List.mem_cons_self ..) hc
        · exact ih (List.mem_cons_of_mem _ hp) hc

def IsWord (text : String) : Prop := text ≠ "" ∧ ∀ c ∈ text.toList, isSpace c = false

theorem words_append_blank (s t : String) : words (s ++ " " ++ t) = words s ++ words t := by
  have hblank : (s ++ " " ++ t).toList = s.toList ++ ' ' :: t.toList := by
    simp [String.toList_append]
  rw [words, hblank, runs, splitWhere_append_cons rfl, List.filter_append, List.map_append]
  rfl

theorem IsWord.words {text : String} (h : IsWord text) : words text = [text] := by
  have hne : text.toList.isEmpty = false := by
    rw [List.isEmpty_eq_false_iff]
    exact fun he => h.1 (String.toList_eq_nil_iff.1 he)
  rw [Text.words, runs, splitWhere_of_forall h.2]
  simp [hne]

theorem flatMap_words {texts : List String} (h : ∀ text ∈ texts, IsWord text) :
    texts.flatMap Text.words = texts := by
  induction texts with
  | nil => rfl
  | cons text texts ih =>
    rw [List.flatMap_cons, (h text (List.mem_cons_self ..)).words,
      ih fun t ht => h t (List.mem_cons_of_mem _ ht)]
    rfl

theorem isWord_of_mem_words {word text : String} (h : word ∈ words text) : IsWord word := by
  obtain ⟨cs, hcs, rfl⟩ := List.mem_map.1 h
  obtain ⟨hp, hne⟩ := List.mem_filter.1 hcs
  refine ⟨fun he => ?_, fun c hc => ?_⟩
  · have hnil : cs = [] := by simpa using congrArg String.toList he
    simp [hnil] at hne
  · exact eq_false_of_mem_splitWhere hp (by simpa using hc)

theorem words_eq_singleton_iff {text : String} : words text = [text] ↔ IsWord text :=
  ⟨fun h => isWord_of_mem_words (h ▸ List.mem_singleton_self text), IsWord.words⟩

end CssModules.Text
