import CssModules.Proofs.Resolution.ClassLists
import CssModules.Proofs.Resolution.Keys

namespace CssModules.TokenMap

/-- What a map is told to do. -/
inductive Call where
  | insert (name identifiers : String)
  | compose (name : String) (identifiers : List String)

namespace Call

def name : Call → String
  | insert name _ => name
  | compose name _ => name

def on (m : TokenMap) : Call → TokenMap
  | insert name identifiers => (m.insertNew name identifiers).2
  | compose name identifiers => m.compose name identifiers

end Call

def ofCalls (calls : List Call) : TokenMap := calls.foldl Call.on empty

section Insert

variable (m : TokenMap) (name identifiers : String)

theorem get?_eq_none_iff {m : TokenMap} {name : String} : m.get? name = none ↔ name ∉ m.keys := by
  rw [← contains_iff, contains, Bool.not_eq_true, Option.isSome_eq_false_iff, Option.isNone_iff_eq_none]

theorem insertNew_fst : (m.insertNew name identifiers).1 = true ↔ name ∉ m.keys := by
  rw [insertNew, ← get?_eq_none_iff]
  cases m.get? name <;> simp

theorem insertNew_snd : (m.insertNew name identifiers).2 = m.insert name identifiers := by
  rw [insertNew, insert, contains]
  cases m.get? name <;> rfl

theorem entries_insert : (m.insert name identifiers).entries =
    if name ∈ m.keys then m.entries else m.entries ++ [(name, identifiers)] := by
  rw [insert]
  simp only [contains_iff]
  split <;> rfl

end Insert

theorem keys_on (m : TokenMap) (call : Call) :
    (call.on m).keys = if call.name ∈ m.keys then m.keys else m.keys ++ [call.name] := by
  cases call with
  | insert name identifiers =>
    rw [Call.on, insertNew_snd]
    exact keys_insert m name identifiers
  | compose name identifiers => exact keys_compose m name identifiers

theorem ofCalls_append_singleton (calls : List Call) (call : Call) :
    ofCalls (calls ++ [call]) = call.on (ofCalls calls) := by
  rw [ofCalls, List.foldl_append]
  rfl

theorem keys_ofCalls (calls : List Call) :
    (ofCalls calls).keys = (calls.map Call.name).eraseDups := by
  induction calls using List.reverseRecOn with
  | nil => rfl
  | append_singleton calls call ih =>
    rw [ofCalls_append_singleton, keys_on, ih, List.map_append, List.map_singleton]
    simp only [Selector.eraseDups_concat, List.contains_iff_mem]

theorem nodup_keys_ofCalls (calls : List Call) : (ofCalls calls).keys.Nodup := by
  induction calls using List.reverseRecOn with
  | nil => exact List.nodup_nil
  | append_singleton calls call ih =>
    rw [ofCalls_append_singleton, keys_on]
    exact nodup_keys_append ih call.name

theorem change_change (name : String) (f g : String → String) (entries : List (String × String)) :
    change name g (change name f entries) = change name (g ∘ f) entries := by
  induction entries with
  | nil => simp [change]
  | cons entry entries ih =>
    obtain ⟨key, value⟩ := entry
    by_cases hk : key = name
    · simp [change, hk]
    · simp [change, hk, ih]

section Words

theorem prefix_addWord (identifiers word : String) :
    identifiers.toList <+: (addWord identifiers word).toList := by
  rw [addWord]
  split
  · exact List.prefix_rfl
  · split
    · next hempty =>
      rw [String.isEmpty_iff.1 hempty]
      exact List.nil_prefix
    · rw [String.append_assoc, String.toList_append]
      exact List.prefix_append ..

theorem prefix_foldl_addWord (identifiers : String) (words : List String) :
    identifiers.toList <+: (words.foldl addWord identifiers).toList := by
  induction words generalizing identifiers with
  | nil => exact List.prefix_rfl
  | cons word words ih => exact (prefix_addWord identifiers word).trans (ih _)

theorem foldl_addWord_of_mem {identifiers : String} {words : List String}
    (hw : ∀ word ∈ words, word ∈ Text.words identifiers) :
    words.foldl addWord identifiers = identifiers := by
  induction words with
  | nil => rfl
  | cons word words ih =>
    have hword : addWord identifiers word = identifiers := by
      rw [addWord, if_pos (List.contains_iff_mem.2 (hw word (List.mem_cons_self ..)))]
    rw [List.foldl_cons, hword]
    exact ih fun w hm => hw w (List.mem_cons_of_mem _ hm)

variable (identifiers : String) (others others' : List String)

theorem addWords_addWords :
    addWords (addWords identifiers others) others' = addWords identifiers (others ++ others') := by
  rw [addWords, addWords, addWords, List.flatMap_append, List.foldl_append]

theorem addWords_self : addWords (addWords identifiers others) others = addWords identifiers others := by
  apply foldl_addWord_of_mem
  intro word hw
  rw [words_addWords]
  exact ClassLists.mem_gain.2 (.inr hw)

end Words

theorem compose_compose (m : TokenMap) (name : String) (identifiers identifiers' : List String) :
    (m.compose name identifiers).compose name identifiers' =
      m.compose name (identifiers ++ identifiers') := by
  unfold compose
  rw [change_change]
  congr 2
  funext value
  exact addWords_addWords value identifiers identifiers'

theorem compose_self (m : TokenMap) (name : String) (identifiers : List String) :
    (m.compose name identifiers).compose name identifiers = m.compose name identifiers := by
  unfold compose
  rw [change_change]
  congr 2
  funext value
  exact addWords_self value identifiers

/-- After any calls classes stand in the order in which they were first mentioned. Inserting leaves
what is there alone; composing puts new words behind those of the class, each if it is not in there
already, and to compose twice is to compose with both lists. -/
theorem ofCalls_algebra (calls : List Call) (name : String) :
    let m := ofCalls calls
    m.keys = (calls.map Call.name).eraseDups ∧ m.keys.Nodup ∧
    (∀ identifiers, ((m.insertNew name identifiers).1 = true ↔ name ∉ m.keys) ∧
      (m.insertNew name identifiers).2.entries =
        if name ∈ m.keys then m.entries else m.entries ++ [(name, identifiers)]) ∧
    (∀ identifiers, ∃ value,
      (∀ other, (m.compose name identifiers).get? other =
        if other = name then some value else m.get? other) ∧
      Text.words value = ClassLists.gain (Text.words ((m.get? name).getD ""))
        (identifiers.flatMap Text.words) ∧
      ((m.get? name).getD "").toList <+: value.toList) ∧
    ∀ identifiers, (m.compose name identifiers).compose name identifiers =
        m.compose name identifiers ∧
      ∀ identifiers', (m.compose name identifiers).compose name identifiers' =
        m.compose name (identifiers ++ identifiers') := by
  intro m
  refine ⟨keys_ofCalls calls, nodup_keys_ofCalls calls, fun identifiers => ?insert,
    fun identifiers => ?compose, fun identifiers => ?again⟩
  case insert =>
    rw [insertNew_snd]
    exact ⟨insertNew_fst m name identifiers, entries_insert m name identifiers⟩
  case compose =>
    refine ⟨addWords ((m.get? name).getD "") identifiers, get?_compose m name identifiers, ?_, ?_⟩
    · exact words_addWords _ identifiers
    · exact prefix_foldl_addWord _ _
  case again => exact ⟨compose_self m name identifiers, compose_compose m name identifiers⟩

example : (ofCalls [.insert "a" "  x\t", .compose "a" ["y x", ""], .insert "a" "z"]).entries =
    [("a", "  x\t y")] := by decide +kernel

end CssModules.TokenMap
