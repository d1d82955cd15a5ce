import CssModules.Proofs.Template.Reading
import Mathlib.Data.List.Perm.Basic

namespace CssModules.Placeholder

open Digest (Algorithm Encoding)

/-- One thing that a hash placeholder can say. -/
inductive Parameter where
  | length (n : Nat)
  | algorithm (a : Algorithm)
  | encoding (e : Encoding)
  deriving DecidableEq

def Parameter.kind : Parameter → HashParameter
  | .length _ => .length
  | .algorithm _ => .algorithm
  | .encoding _ => .encoding

def Spells (word : List Char) : Parameter → Prop
  | .length n => isNumber word = true ∧ numberValue word = n ∧ n < numberLimit
  | .algorithm a => a.name.toList = word.map Char.toLower
  | .encoding e => e.name.toList = word.map Char.toLower

instance (word : List Char) : (p : Parameter) → Decidable (Spells word p)
  | .length _ => inferInstanceAs (Decidable (_ ∧ _ ∧ _))
  | .algorithm _ => inferInstanceAs (Decidable (_ = _))
  | .encoding _ => inferInstanceAs (Decidable (_ = _))

def Says (o : Overrides) : Parameter → Prop
  | .length n => o.length = some n
  | .algorithm a => o.algorithm = some a
  | .encoding e => o.encoding = some e

def mentions (o : Overrides) : HashParameter → Bool
  | .length => o.length.isSome
  | .algorithm => o.algorithm.isSome
  | .encoding => o.encoding.isSome

def say (o : Overrides) : Parameter → Overrides
  | .length n => { o with length := some n }
  | .algorithm a => { o with algorithm := some a }
  | .encoding e => { o with encoding := some e }

/-- The parts of a hash placeholder: what stands before its hash word, if anything, and the words
behind it. The hash word is the first part or, if that is none, the second. -/
inductive HashCut : (parts : List (List Char)) → (front : Option (List Char)) →
    (words : List (List Char)) → Prop
  | first {hash words} (h : isHashWord hash = true) : HashCut (hash :: words) none words
  | second {front hash words} (hfront : isHashWord front = false) (h : isHashWord hash = true) :
      HashCut (front :: hash :: words) (some front) words

def NamesAlgorithm (word : List Char) : Prop := ∃ a, Spells word (.algorithm a)

/-- Whether the words of a hash placeholder stand for parameters, no two of a kind, and the one in
front for an algorithm. -/
def StandsFor (front : Option (List Char)) (words : List (List Char)) (said : List Parameter) : Prop :=
  (∀ word ∈ front, NamesAlgorithm word) ∧
    List.Forall₂ Spells (front.toList ++ words) said ∧ (said.map Parameter.kind).Nodup

/-- Whether overrides have what a hash placeholder says and nothing else. -/
def Denotes (front : Option (List Char)) (words : List (List Char)) (o : Overrides) : Prop :=
  ∃ said, StandsFor front words said ∧ ∀ p, Says o p ↔ p ∈ said

/-- Whether the words of one hash placeholder are those of another in any order, the one in front kept
or, if it names an algorithm, moved to the others. -/
def Rearranged (front : Option (List Char)) (words : List (List Char)) (front' : Option (List Char))
    (words' : List (List Char)) : Prop :=
  (front = front' ∧ words.Perm words') ∨
    ((∀ word ∈ front, NamesAlgorithm word) ∧ (∀ word ∈ front', NamesAlgorithm word) ∧
      (front.toList ++ words).Perm (front'.toList ++ words'))

variable {o o' : Overrides} {p q : Parameter} {a : Algorithm} {e : Encoding}
  {front front' : Option (List Char)} {word w w' : List Char} {words words' parts : List (List Char)}
  {said : List Parameter}

section Words

theorem toLower_ofList (word : List Char) :
    (String.ofList word).toLower = String.ofList (word.map Char.toLower) := by
  change (String.ofList word).map Char.toLower = _
  apply String.toList_inj.1
  rw [String.toList_map, String.toList_ofList, String.toList_ofList]

theorem toLower_of_isDigit {c : Char} (h : c.isDigit = true) : c.toLower = c := by
  refine dif_neg ?_
  simp only [Char.isDigit, Bool.and_eq_true, decide_eq_true_eq, UInt32.le_iff_toNat_le,
    ge_iff_le] at h ⊢
  have : '9'.val.toNat = 57 := rfl
  have : 'A'.val.toNat = 65 := rfl
  omega

theorem name_eq_iff {name : String} :
    name = (String.ofList word).toLower ↔ name.toList = word.map Char.toLower := by
  rw [toLower_ofList, ← String.toList_inj, String.toList_ofList]

theorem algorithm_ofName?_eq_some_iff :
    Algorithm.ofName? (String.ofList word) = some a ↔ Spells word (.algorithm a) := by
  rw [Spells, ← name_eq_iff, Algorithm.ofName?]
  constructor
  · intro h
    have hname := List.find?_some h
    exact beq_iff_eq.1 hname
  · intro h
    rw [← h]
    cases a <;> rfl

theorem encoding_ofName?_eq_some_iff :
    Encoding.ofName? (String.ofList word) = some e ↔ Spells word (.encoding e) := by
  rw [Spells, ← name_eq_iff, Encoding.ofName?]
  constructor
  · intro h
    have hname := List.find?_some h
    exact beq_iff_eq.1 hname
  · intro h
    rw [← h]
    rcases e with _ | _ | _ | alphabet
    · rfl
    · rfl
    · rfl
    · cases alphabet <;> decide +kernel

theorem not_digits_of_name {name : String} (hname : name.toList = word.map Char.toLower)
    (h : name.toList.all Char.isDigit = false) : word.all Char.isDigit = false := by
  rw [Bool.eq_false_iff] at h ⊢
  intro hall
  apply h
  rw [hname, List.all_map]
  apply List.all_eq_true.2
  intro c hc
  have hdigit := List.all_eq_true.1 hall c hc
  rw [Function.comp_apply, toLower_of_isDigit hdigit, hdigit]

theorem not_digits_of_algorithm (h : Spells word (.algorithm a)) :
    word.all Char.isDigit = false :=
  not_digits_of_name h (by cases a <;> rfl)

theorem not_digits_of_encoding (h : Spells word (.encoding e)) :
    word.all Char.isDigit = false := by
  apply not_digits_of_name h
  rcases e with _ | _ | _ | alphabet
  · rfl
  · rfl
  · rfl
  · cases alphabet <;> decide +kernel

theorem not_algorithm_of_encoding (h : Spells word (.encoding e)) : ¬Spells word (.algorithm a) := by
  intro ha
  have hname : a.name = e.name := String.toList_inj.1 (ha.trans h.symm)
  have hnone : ∀ e ∈ Encoding.all, ∀ a ∈ Algorithm.all, a.name ≠ e.name := by decide +kernel
  refine hnone e ?_ a ?_ hname
  · rcases e with _ | _ | _ | alphabet
    · decide
    · decide
    · decide
    · cases alphabet <;> decide
  · cases a <;> decide

end Words

section Overrides

theorem says_none : ¬Says .none p := by cases p <;> nofun

theorem mentions_say (o : Overrides) (p : Parameter) (k : HashParameter) :
    mentions (say o p) k = (p.kind == k || mentions o k) := by
  cases p <;> cases k <;> rfl

theorem says_say (h : mentions o p.kind = false) : Says (say o p) q ↔ q = p ∨ Says o q := by
  cases p <;> cases q <;>
    simp only [mentions, Parameter.kind, Option.isSome_eq_false_iff, Option.isNone_iff_eq_none] at h <;>
    simp [Says, say, h, eq_comm]

theorem eq_of_says (h : ∀ p, Says o p ↔ Says o' p) : o = o' := by
  have hlength : o.length = o'.length := Option.ext fun n => h (.length n)
  have halgorithm : o.algorithm = o'.algorithm := Option.ext fun a => h (.algorithm a)
  have hencoding : o.encoding = o'.encoding := Option.ext fun e => h (.encoding e)
  cases o
  cases o'
  simp_all

theorem addParameter_eq_ok_iff : addParameter o word = .ok o' ↔
    ∃ p, Spells word p ∧ mentions o p.kind = false ∧ o' = say o p := by
  constructor
  · intro h
    simp only [addParameter] at h
    split at h
    · cases h
    · next hempty =>
      split at h
      · next hdigits =>
        split at h
        · next hlimit =>
          split at h
          · cases h
          · next hnone =>
            have hnumber : isNumber word = true := by simp_all [isNumber]
            exact ⟨.length (numberValue word), ⟨hnumber, rfl, hlimit⟩,
              Bool.eq_false_iff.2 hnone, (Except.ok.inj h).symm⟩
        · cases h
      · split at h
        · next a ha =>
          split at h
          · cases h
          · next hnone =>
            exact ⟨.algorithm a, algorithm_ofName?_eq_some_iff.1 ha, Bool.eq_false_iff.2 hnone,
              (Except.ok.inj h).symm⟩
        · next e _ he =>
          split at h
          · cases h
          · next hnone =>
            exact ⟨.encoding e, encoding_ofName?_eq_some_iff.1 he, Bool.eq_false_iff.2 hnone,
              (Except.ok.inj h).symm⟩
        · cases h
  · rintro ⟨p, hp, hunsaid, rfl⟩
    have hempty (hdigits : word.all Char.isDigit = false) : ¬word.isEmpty = true := by
      intro hnil
      rw [List.isEmpty_iff.1 hnil] at hdigits
      cases hdigits
    cases p with
    | length n =>
      obtain ⟨hnumber, rfl, hlimit⟩ := hp
      obtain ⟨hne, hdigits⟩ := Bool.and_eq_true_iff.1 hnumber
      have hnone : ¬o.length.isSome = true := Bool.eq_false_iff.1 hunsaid
      simp only [addParameter]
      rw [if_neg (by simpa using hne), if_pos hdigits, if_pos hlimit, if_neg hnone]
      rfl
    | algorithm a =>
      have hdigits := not_digits_of_algorithm hp
      have hnone : ¬o.algorithm.isSome = true := Bool.eq_false_iff.1 hunsaid
      simp only [addParameter]
      rw [if_neg (hempty hdigits), if_neg (Bool.eq_false_iff.1 hdigits),
        algorithm_ofName?_eq_some_iff.2 hp]
      exact if_neg hnone
    | encoding e =>
      have hdigits := not_digits_of_encoding hp
      have hnone : ¬o.encoding.isSome = true := Bool.eq_false_iff.1 hunsaid
      have halgorithm : Algorithm.ofName? (String.ofList word) = none := by
        apply Option.eq_none_iff_forall_ne_some.2
        intro a ha
        exact not_algorithm_of_encoding hp (algorithm_ofName?_eq_some_iff.1 ha)
      simp only [addParameter]
      rw [if_neg (hempty hdigits), if_neg (Bool.eq_false_iff.1 hdigits), halgorithm,
        encoding_ofName?_eq_some_iff.2 hp]
      exact if_neg hnone

theorem mentions_of_mem_say (hnodup : (p.kind :: said.map Parameter.kind).Nodup)
    (hfresh : ∀ q ∈ said, mentions o q.kind = false) : ∀ q ∈ said, mentions (say o p) q.kind = false := by
  intro q hq
  rw [mentions_say, Bool.or_eq_false_iff, beq_eq_false_iff_ne]
  refine ⟨?_, hfresh q hq⟩
  intro hkind
  exact (List.nodup_cons.1 hnodup).1 (hkind ▸ List.mem_map_of_mem hq)

theorem says_foldl_say (hnodup : (said.map Parameter.kind).Nodup)
    (hfresh : ∀ p ∈ said, mentions o p.kind = false) :
    Says (said.foldl say o) q ↔ q ∈ said ∨ Says o q := by
  induction said generalizing o with
  | nil => simp
  | cons p said ih =>
    rw [List.foldl_cons, ih (List.nodup_cons.1 hnodup).2
      (mentions_of_mem_say hnodup fun q hq => hfresh q (List.mem_cons_of_mem _ hq)),
      says_say (hfresh p (List.mem_cons_self ..)), List.mem_cons, or_left_comm, or_assoc]

theorem foldlM_addParameter_eq_ok_iff : words.foldlM addParameter o = .ok o' ↔
    ∃ said, List.Forall₂ Spells words said ∧ (said.map Parameter.kind).Nodup ∧
      (∀ p ∈ said, mentions o p.kind = false) ∧ o' = said.foldl say o := by
  induction words generalizing o with
  | nil =>
    constructor
    · intro h
      cases h
      exact ⟨[], .nil, List.nodup_nil, nofun, rfl⟩
    · rintro ⟨said, hspells, -, -, rfl⟩
      cases hspells
      rfl
  | cons word words ih =>
    rw [List.foldlM_cons, bind_eq_ok_iff]
    constructor
    · rintro ⟨o₁, h₁, h⟩
      obtain ⟨p, hp, hunsaid, rfl⟩ := addParameter_eq_ok_iff.1 h₁
      obtain ⟨said, hspells, hnodup, hfresh, rfl⟩ := ih.1 h
      simp only [mentions_say, Bool.or_eq_false_iff, beq_eq_false_iff_ne] at hfresh
      refine ⟨p :: said, .cons hp hspells, ?_, ?_, rfl⟩
      · rw [List.map_cons, List.nodup_cons]
        refine ⟨?_, hnodup⟩
        intro hmem
        obtain ⟨q, hq, hkind⟩ := List.mem_map.1 hmem
        exact (hfresh q hq).1 hkind.symm
      · exact List.forall_mem_cons.2 ⟨hunsaid, fun q hq => (hfresh q hq).2⟩
    · rintro ⟨said, hspells, hnodup, hfresh, rfl⟩
      cases hspells with
      | cons hp hspells =>
        next p said =>
        obtain ⟨hunsaid, hfresh⟩ := List.forall_mem_cons.1 hfresh
        exact ⟨say o p, addParameter_eq_ok_iff.2 ⟨p, hp, hunsaid, rfl⟩,
          ih.2 ⟨said, hspells, (List.nodup_cons.1 hnodup).2, mentions_of_mem_say hnodup hfresh, rfl⟩⟩

theorem mentions_none (p : Parameter) : mentions .none p.kind = false := by cases p <;> rfl

theorem StandsFor.denotes (h : StandsFor front words said) :
    Denotes front words (said.foldl say .none) := by
  refine ⟨said, h, fun p => ?_⟩
  rw [says_foldl_say h.2.2 fun q _ => mentions_none q, or_iff_left says_none]

theorem overrides_some_eq_ok_iff : overrides (some word) words = .ok o ↔
    NamesAlgorithm word ∧ (word :: words).foldlM addParameter .none = .ok o := by
  rw [overrides, List.foldlM_cons]
  constructor
  · intro h
    split at h
    · next a ha =>
      have hspells := algorithm_ofName?_eq_some_iff.1 ha
      refine ⟨⟨a, hspells⟩, bind_eq_ok_iff.2 ⟨_, ?_, h⟩⟩
      exact addParameter_eq_ok_iff.2 ⟨.algorithm a, hspells, rfl, rfl⟩
    · cases h
  · rintro ⟨⟨a, hspells⟩, h⟩
    have hfirst : addParameter .none word = .ok (say .none (.algorithm a)) :=
      addParameter_eq_ok_iff.2 ⟨.algorithm a, hspells, rfl, rfl⟩
    rw [hfirst] at h
    rw [algorithm_ofName?_eq_some_iff.2 hspells]
    exact h

theorem overrides_eq_ok_iff : overrides front words = .ok o ↔ Denotes front words o := by
  have hread : overrides front words = .ok o ↔
      ∃ said, StandsFor front words said ∧ o = said.foldl say .none := by
    cases front with
    | none => simp [overrides, foldlM_addParameter_eq_ok_iff, mentions_none, StandsFor, and_assoc]
    | some word =>
      rw [overrides_some_eq_ok_iff, foldlM_addParameter_eq_ok_iff]
      simp [mentions_none, StandsFor, and_assoc]
  rw [hread]
  constructor
  · rintro ⟨said, h, rfl⟩
    exact h.denotes
  · rintro ⟨said, h, hmeans⟩
    refine ⟨said, h, eq_of_says fun p => ?_⟩
    rw [hmeans, says_foldl_say h.2.2 fun q _ => mentions_none q, or_iff_left says_none]

theorem Rearranged.symm (h : Rearranged front words front' words') :
    Rearranged front' words' front words := by
  rcases h with ⟨rfl, hwords⟩ | ⟨hfront, hfront', hwords⟩
  · exact .inl ⟨rfl, hwords.symm⟩
  · exact .inr ⟨hfront', hfront, hwords.symm⟩

theorem Rearranged.denotes (h : Rearranged front words front' words')
    (ho : Denotes front words o) : Denotes front' words' o := by
  obtain ⟨said, ⟨hfront, hspells, hnodup⟩, hmeans⟩ := ho
  have hperm : (front'.toList ++ words').Perm (front.toList ++ words) := by
    rcases h with ⟨rfl, hwords⟩ | ⟨-, -, hwords⟩
    · exact hwords.symm.append_left _
    · exact hwords.symm
  have hfront' : ∀ word ∈ front', NamesAlgorithm word := by
    rcases h with ⟨rfl, -⟩ | ⟨-, hfront', -⟩
    · exact hfront
    · exact hfront'
  obtain ⟨said', hspells', hsaid⟩ := List.perm_comp_forall₂ hperm hspells
  refine ⟨said', ⟨hfront', hspells', ?_⟩, fun p => ?_⟩
  · exact (hsaid.map Parameter.kind).nodup_iff.2 hnodup
  · rw [hmeans, hsaid.mem_iff]

theorem Rearranged.denotes_iff (h : Rearranged front words front' words') :
    Denotes front words o ↔ Denotes front' words' o :=
  ⟨h.denotes, h.symm.denotes⟩

end Overrides

section Parts

theorem HashCut.exists_hash (h : HashCut parts front words) :
    ∃ part ∈ parts, isHashWord part = true := by
  cases h with
  | first h => exact ⟨_, List.mem_cons_self .., h⟩
  | second _ h => exact ⟨_, List.mem_cons_of_mem _ (List.mem_cons_self ..), h⟩

def simpleWords : List String := ["path", "name", "ext", "file", "folder", "package", "local"]

theorem simpleSegment?_eq_none (h : String.ofList word ∉ simpleWords) :
    simpleSegment? (String.ofList word) = none := by
  simp only [simpleWords, List.mem_cons, List.not_mem_nil, or_false, not_or] at h
  simp [simpleSegment?, h]

theorem simpleSegment?_of_hashCut (h : HashCut (Text.splitAt ':' word) front words) :
    simpleSegment? (String.ofList word) = none := by
  have hwords : ∀ name ∈ simpleWords, (Text.splitAt ':' name.toList).any isHashWord = false := by
    decide +kernel
  obtain ⟨part, hpart, hhash⟩ := h.exists_hash
  apply simpleSegment?_eq_none
  intro hmem
  have hname := hwords _ hmem
  rw [String.toList_ofList, List.any_eq_false] at hname
  exact hname part hpart hhash

theorem isNumber_of_hashCut (h : HashCut (Text.splitAt ':' word) front words) :
    isNumber word = false := by
  rw [Bool.eq_false_iff]
  intro hnumber
  have hdigits := List.all_eq_true.1 (Bool.and_eq_true_iff.1 hnumber).2
  have hcolon : ':' ∉ word := fun hmem => absurd (hdigits ':' hmem) (by decide)
  obtain ⟨part, hpart, hhash⟩ := h.exists_hash
  rw [Text.splitAt_of_not_mem hcolon, List.mem_singleton] at hpart
  subst hpart
  have hh : 'h' ∈ part := by
    simp only [isHashWord, Bool.or_eq_true, beq_iff_eq] at hhash
    rcases hhash with (rfl | rfl) | rfl <;> decide +kernel
  exact absurd (hdigits 'h' hh) (by decide)

theorem classify_of_hashCut (h : HashCut (Text.splitAt ':' (w.map Char.toLower)) front words) :
    classify w = (some ∘ .hash) <$> overrides front words := by
  simp only [classify]
  rw [simpleSegment?_of_hashCut h, isNumber_of_hashCut h]
  generalize Text.splitAt ':' (w.map Char.toLower) = parts at h
  cases h with
  | first h => simp [h]
  | second hfront h => simp [hfront, h]

theorem classify_of_not_hashCut
    (hsimple : simpleSegment? (String.ofList (w.map Char.toLower)) = none)
    (hnumber : isNumber (w.map Char.toLower) = false)
    (h : ∀ front words, ¬HashCut (Text.splitAt ':' (w.map Char.toLower)) front words) :
    classify w = .ok none := by
  simp only [classify]
  rw [hsimple, hnumber]
  generalize Text.splitAt ':' (w.map Char.toLower) = parts at h
  rcases parts with _ | ⟨first, _ | ⟨second, words⟩⟩
  · rfl
  · have hfirst : ¬isHashWord first = true := fun hhash => h _ _ (.first hhash)
    simp [hfirst]
  · have hfirst : ¬isHashWord first = true := fun hhash => h _ _ (.first hhash)
    have hsecond : ¬isHashWord second = true := fun hhash =>
      h _ _ (.second (Bool.eq_false_iff.2 hfirst) hhash)
    simp [hfirst, hsecond]

theorem classify_eq_ok_iff (h : HashCut (Text.splitAt ':' (w.map Char.toLower)) front words) :
    classify w = .ok (some (.hash o)) ↔ Denotes front words o := by
  rw [classify_of_hashCut h, ← overrides_eq_ok_iff]
  cases overrides front words with
  | ok o' => simp [Functor.map, Except.map]
  | error fault => simp [Functor.map, Except.map]

theorem exists_ok_iff (h : HashCut (Text.splitAt ':' (w.map Char.toLower)) front words) :
    (∃ o, classify w = .ok (some (.hash o))) ↔ ∃ said, StandsFor front words said := by
  constructor
  · rintro ⟨o, ho⟩
    obtain ⟨said, hsaid, -⟩ := (classify_eq_ok_iff h).1 ho
    exact ⟨said, hsaid⟩
  · rintro ⟨said, hsaid⟩
    exact ⟨_, (classify_eq_ok_iff h).2 hsaid.denotes⟩

theorem exists_error (h : HashCut (Text.splitAt ':' (w.map Char.toLower)) front words)
    (hnone : ¬∃ o, classify w = .ok (some (.hash o))) : ∃ fault, classify w = .error fault := by
  rw [classify_of_hashCut h] at hnone ⊢
  cases ho : overrides front words with
  | ok o => exact absurd ⟨o, by rw [ho]; rfl⟩ hnone
  | error fault => exact ⟨fault, rfl⟩

end Parts

def bracketed (w : List Char) : String := String.ofList ('[' :: w ++ [']'])

theorem parse_bracketed (hopen : '[' ∉ w) (hclose : ']' ∉ w) :
    Template.parse (bracketed w) = match classify w with
      | .ok (some segment) => .ok ⟨bracketed w, [segment]⟩
      | .ok none => .ok ⟨bracketed w, [.literal (bracketed w)]⟩
      | .error fault =>
        .error (.configuration (.malformedPlaceholder (String.ofList w) (bracketed w) fault)) := by
  have hpieces : Template.piecesFrom none (bracketed w).toList = [.bracketed w] := by
    rw [bracketed, String.toList_ofList]
    exact Template.piecesFrom_close [] [] hopen hclose
  rw [Template.parse, hpieces, Template.segmentsOf]
  cases classify w with
  | ok segment => cases segment <;> rfl
  | error fault => rfl

/-- A text between brackets of which neither of the first two parts is a hash word stands for itself
or is another placeholder. Otherwise it is read exactly if its words stand for parameters, whatever
their case and order, and else it is malformed. -/
theorem classify_grammar (hopen : '[' ∉ w) (hclose : ']' ∉ w) :
    (simpleSegment? (String.ofList (w.map Char.toLower)) = none →
      isNumber (w.map Char.toLower) = false →
      (∀ front words, ¬HashCut (Text.splitAt ':' (w.map Char.toLower)) front words) →
      classify w = .ok none ∧
        Template.parse (bracketed w) = .ok ⟨bracketed w, [.literal (bracketed w)]⟩) ∧
    (∀ front words, HashCut (Text.splitAt ':' (w.map Char.toLower)) front words →
      ((∃ o, classify w = .ok (some (.hash o))) ↔ ∃ said, StandsFor front words said) ∧
      (∀ o, classify w = .ok (some (.hash o)) ↔ Denotes front words o) ∧
      (∀ o, Template.parse (bracketed w) = .ok ⟨bracketed w, [.hash o]⟩ ↔ Denotes front words o) ∧
      ((¬∃ said, StandsFor front words said) → ∃ fault, classify w = .error fault ∧
        Template.parse (bracketed w) = .error
          (.configuration (.malformedPlaceholder (String.ofList w) (bracketed w) fault))) ∧
      ∀ w' front' words', HashCut (Text.splitAt ':' (w'.map Char.toLower)) front' words' →
        Rearranged front words front' words' →
        ∀ o, classify w = .ok (some (.hash o)) ↔ classify w' = .ok (some (.hash o))) ∧
    ∀ w', w'.map Char.toLower = w.map Char.toLower → classify w' = classify w := by
  have hparse := parse_bracketed hopen hclose
  refine ⟨fun hsimple hnumber hcut => ?_, fun front words hcut => ⟨exists_ok_iff hcut,
    fun o => classify_eq_ok_iff hcut, fun o => ?_, fun hnone => ?_, ?_⟩, fun w' hcase => ?_⟩
  · have hclassify := classify_of_not_hashCut hsimple hnumber hcut
    rw [hclassify] at hparse
    exact ⟨hclassify, hparse⟩
  · rw [← classify_eq_ok_iff hcut, hparse]
    rcases classify w with fault | (_ | segment) <;> simp
  · rw [← exists_ok_iff hcut] at hnone
    obtain ⟨fault, hfault⟩ := exists_error hcut hnone
    rw [hfault] at hparse
    exact ⟨fault, hfault, hparse⟩
  · intro w' front' words' hcut' h o
    rw [classify_eq_ok_iff hcut, classify_eq_ok_iff hcut', h.denotes_iff]
  · simp only [classify, hcase]

theorem classify_grammar_prefixed :
    let w := "SHA1:hash:base64:5".toList
    let w' := "hash:5:sha1:base64".toList
    let o : Overrides := ⟨some .sha1, some .base64, some 5⟩
    '[' ∉ w ∧ ']' ∉ w ∧ classify w = .ok (some (.hash o)) ∧ classify w' = .ok (some (.hash o)) := by
  intro w w' o
  have hopen : '[' ∉ w := by decide +kernel
  have hclose : ']' ∉ w := by decide +kernel
  obtain ⟨-, hread, -⟩ := classify_grammar hopen hclose
  have hparts : Text.splitAt ':' (w.map Char.toLower) =
      ["sha1".toList, "hash".toList, "base64".toList, "5".toList] := by decide +kernel
  have hparts' : Text.splitAt ':' (w'.map Char.toLower) =
      ["hash".toList, "5".toList, "sha1".toList, "base64".toList] := by decide +kernel
  rw [hparts] at hread
  obtain ⟨-, haccept, -, -, hmove⟩ := hread _ _ (.second (by decide +kernel) (by decide +kernel))
  have hsha1 : Spells "sha1".toList (.algorithm .sha1) := by decide +kernel
  have hfront : ∀ word ∈ some "sha1".toList, NamesAlgorithm word := by
    rintro word ⟨⟩
    exact ⟨.sha1, hsha1⟩
  have hdenotes : Denotes (some "sha1".toList) ["base64".toList, "5".toList] o := by
    refine ⟨[.algorithm .sha1, .encoding .base64, .length 5], ⟨hfront, ?_, by decide⟩, ?_⟩
    · exact .cons hsha1 (.cons (by decide +kernel) (.cons (by decide +kernel) .nil))
    · intro p
      cases p <;> simp [Says, o, eq_comm]
  have hcut' : HashCut (Text.splitAt ':' (w'.map Char.toLower)) none
      ["5".toList, "sha1".toList, "base64".toList] := by
    rw [hparts']
    exact .first (by decide +kernel)
  have hrearranged : Rearranged (some "sha1".toList) ["base64".toList, "5".toList] none
      ["5".toList, "sha1".toList, "base64".toList] := .inr ⟨hfront, nofun, by decide +kernel⟩
  have hclassify := (haccept o).2 hdenotes
  exact ⟨hopen, hclose, hclassify, (hmove w' _ _ hcut' hrearranged o).1 hclassify⟩

end CssModules.Placeholder
