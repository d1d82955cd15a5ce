import CssModules.Proofs.Toml.Merging
import CssModules.Toml.Read

namespace CssModules.Toml

variable {entries entries' : Draft.Entries} {d : Draft} {key : String} {path header : List String}
  {v : Toml} {cs rest : List Char} {fuel room : Nat}

namespace Draft

/-- A draft with ordered values only. -/
inductive Ordered : Draft → Prop where
  | value {v : Toml} (h : v.Ordered) : Ordered (.value v)
  | table {origin : Origin} {entries : Entries} (h : ∀ e ∈ entries, Ordered e.2) :
      Ordered (.table origin entries)
  | series {last : Entries} {earlier : List Draft} (hlast : ∀ e ∈ last, Ordered e.2)
      (hearlier : ∀ d ∈ earlier, Ordered d) : Ordered (.series last earlier)

def Entries.Ordered (entries : Entries) : Prop := ∀ e ∈ entries, e.2.Ordered

theorem finishEntries_ordered (h : ∀ e ∈ entries, (finish e.2).Ordered) :
    (Toml.table (finishEntries entries)).Ordered := by
  induction entries with
  | nil =>
    rw [finishEntries]
    exact .nil
  | cons e entries ih =>
    rw [finishEntries]
    exact (ih fun e' he' => h e' (List.mem_cons_of_mem _ he')).insert (h e (List.mem_cons_self ..))

theorem finishSeries_ordered {done : List Toml} {earlier : List Draft}
    (hdone : ∀ v ∈ done, v.Ordered) (h : ∀ d ∈ earlier, (finish d).Ordered) :
    ∀ v ∈ finishSeries done earlier, v.Ordered := by
  induction earlier generalizing done with
  | nil =>
    rw [finishSeries]
    exact hdone
  | cons d earlier ih =>
    rw [finishSeries]
    refine ih (fun v hv => ?_) fun d' hd' => h d' (List.mem_cons_of_mem _ hd')
    rcases List.mem_cons.1 hv with rfl | hv
    · exact h d (List.mem_cons_self ..)
    · exact hdone v hv

theorem Ordered.finish (h : d.Ordered) : (finish d).Ordered := by
  induction h with
  | value h =>
    rw [Draft.finish]
    exact h
  | table h ih =>
    rw [Draft.finish]
    exact finishEntries_ordered ih
  | series hlast hearlier ihLast ihEarlier =>
    rw [Draft.finish]
    refine .array (finishSeries_ordered (fun v hv => ?_) ihEarlier)
    rw [List.mem_singleton.1 hv]
    exact finishEntries_ordered ihLast

theorem Entries.Ordered.finish (h : entries.Ordered) :
    (Toml.table (finishEntries entries)).Ordered :=
  finishEntries_ordered fun e he => (h e he).finish

theorem Entries.Ordered.nil : Entries.Ordered [] := nofun

theorem Entries.Ordered.concat (h : entries.Ordered) (hd : d.Ordered) :
    Entries.Ordered (entries ++ [(key, d)]) := by
  intro e he
  rcases List.mem_append.1 he with he | he
  · exact h e he
  · rw [List.mem_singleton.1 he]
    exact hd

theorem Entries.Ordered.replace (h : entries.Ordered) (hd : d.Ordered) :
    Entries.Ordered (replace key d entries) := by
  intro e he
  obtain ⟨⟨k, old⟩, hmem, rfl⟩ := List.mem_map.1 he
  dsimp only
  split
  · exact hd
  · exact h _ hmem

theorem Entries.Ordered.lookup (h : entries.Ordered) (hd : entries.lookup key = some d) :
    d.Ordered := by
  obtain ⟨before, after, rfl, -⟩ := List.lookup_eq_some_iff.1 hd
  exact h (key, d) (by simp)

-- `f` is only asked about entries that lie at the end of `path`, which are ordered as all others.
theorem change_ordered {missing : Origin} {enter : Origin → Bool}
    {f : Origin → Entries → Option Entries} {origin : Origin}
    (hf : ∀ origin entries entries', Entries.Ordered entries → f origin entries = some entries' →
      Entries.Ordered entries')
    (h : entries.Ordered) (hchange : change missing enter f path origin entries = some entries') :
    entries'.Ordered := by
  induction path generalizing origin entries entries' with
  | nil => exact hf _ _ _ h hchange
  | cons key path ih =>
    rw [change] at hchange
    split at hchange
    · obtain ⟨made, hmade, he⟩ := Option.bind_eq_some_iff.1 hchange
      cases he
      exact h.concat (.table (ih .nil hmade))
    · cases hchange
    · next hlookup =>
      split at hchange
      · obtain ⟨inner, hinner, he⟩ := Option.bind_eq_some_iff.1 hchange
        cases he
        cases h.lookup hlookup with
        | table hold => exact h.replace (.table (ih hold hinner))
      · cases hchange
    · next hlookup =>
      obtain ⟨last, hlast, he⟩ := Option.bind_eq_some_iff.1 hchange
      cases he
      cases h.lookup hlookup with
      | series hold hearlier => exact h.replace (.series (ih hold hlast) hearlier)

theorem setDotted_ordered {origin : Origin} (hv : v.Ordered) (h : entries.Ordered)
    (hset : setDotted path key v origin entries = some entries') : entries'.Ordered := by
  refine change_ordered (fun inner entries entries' h hadd => ?_) h hset
  split at hadd
  · rw [add] at hadd
    split at hadd
    · cases hadd
    · cases hadd
      exact h.concat (.value hv)
  · cases hadd

theorem set_ordered (hv : v.Ordered) (h : entries.Ordered)
    (hset : set header path key v entries = some entries') : entries'.Ordered :=
  change_ordered (fun _ _ _ h hdotted => setDotted_ordered hv h hdotted) h hset

theorem beginTable_ordered (h : entries.Ordered)
    (hbegin : beginTable path key entries = some entries') : entries'.Ordered := by
  refine change_ordered (fun _ entries entries' h hbegin => ?_) h hbegin
  split at hbegin
  · cases hbegin
    exact h.concat (.table nofun)
  · next hlookup =>
    cases hbegin
    cases h.lookup hlookup with
    | table hinner => exact h.replace (.table hinner)
  · cases hbegin

theorem beginItem_ordered (h : entries.Ordered)
    (hbegin : beginItem path key entries = some entries') : entries'.Ordered := by
  refine change_ordered (fun _ entries entries' h hbegin => ?_) h hbegin
  split at hbegin
  · cases hbegin
    exact h.concat (.series nofun nofun)
  · next hlookup =>
    cases hbegin
    cases h.lookup hlookup with
    | series hlast hearlier =>
      refine h.replace (.series nofun fun d hd => ?_)
      rcases List.mem_cons.1 hd with rfl | hd
      · exact .table hlast
      · exact hearlier d hd
  · cases hbegin

end Draft

theorem readScalar_ordered (h : readScalar cs = some (v, rest)) : v.Ordered := by
  refine .scalar (fun items he => ?_) (fun entries he => ?_)
  all_goals
    subst he
    rw [readScalar.eq_def] at h
    split at h
    all_goals simp [Option.or_eq_some_iff] at h

theorem read_ordered (fuel : Nat) :
    (∀ room cs v rest, readValue fuel room cs = some (v, rest) → v.Ordered) ∧
      (∀ room cs vs rest, readItems fuel room cs = some (vs, rest) → ∀ v ∈ vs, v.Ordered) ∧
        ∀ room entries cs entries' rest, Draft.Entries.Ordered entries →
          readPairs fuel room entries cs = some (entries', rest) → entries'.Ordered := by
  induction fuel with
  | zero =>
    refine ⟨?_, ?_, ?_⟩
    · intro room cs v rest h
      rw [readValue] at h
      cases h
    · intro room cs vs rest h
      rw [readItems] at h
      cases h
    · intro room entries cs entries' rest _ h
      rw [readPairs] at h
      cases h
  | succ fuel ih =>
    obtain ⟨ihValue, ihItems, ihPairs⟩ := ih
    refine ⟨?_, ?_, ?_⟩
    · intro room cs v rest h
      rw [readValue.eq_def] at h
      dsimp only at h
      split at h
      · obtain ⟨⟨items, _⟩, hitems, he⟩ := Option.map_eq_some_iff.1 h
        cases he
        exact .array (ihItems _ _ _ _ hitems)
      · split at h
        · cases h
          exact .nil
        · obtain ⟨⟨entries, _⟩, hpairs, he⟩ := Option.map_eq_some_iff.1 h
          cases he
          exact (ihPairs _ _ _ _ _ .nil hpairs).finish
      · exact readScalar_ordered h
    · intro room cs vs rest h
      rw [readItems] at h
      obtain ⟨_, -, h⟩ := Option.bind_eq_some_iff.1 h
      split at h
      · cases h
        exact nofun
      · obtain ⟨⟨v, _⟩, hv, h⟩ := Option.bind_eq_some_iff.1 h
        obtain ⟨_, -, h⟩ := Option.bind_eq_some_iff.1 h
        have hv := ihValue _ _ _ _ hv
        dsimp only at h
        split at h
        · obtain ⟨⟨vs', _⟩, hvs, h⟩ := Option.bind_eq_some_iff.1 h
          cases h
          exact List.forall_mem_cons.2 ⟨hv, ihItems _ _ _ _ hvs⟩
        · cases h
          exact List.forall_mem_singleton.2 hv
        · cases h
    · intro room entries cs entries' rest hentries h
      rw [readPairs] at h
      obtain ⟨⟨⟨path, key⟩, _⟩, -, h⟩ := Option.bind_eq_some_iff.1 h
      obtain ⟨_, -, h⟩ := Option.bind_eq_some_iff.1 h
      obtain ⟨⟨v, _⟩, hv, h⟩ := Option.bind_eq_some_iff.1 h
      obtain ⟨added, hadded, h⟩ := Option.bind_eq_some_iff.1 h
      have hadded := Draft.setDotted_ordered (ihValue _ _ _ _ hv) hentries hadded
      split at h
      · exact ihPairs _ _ _ _ _ hadded h
      · cases h
        exact hadded
      · cases h

theorem readHeader_ordered {s s' : Reading} (hs : s.root.Ordered)
    (h : readHeader s cs = some (s', rest)) : s'.root.Ordered := by
  rw [readHeader.eq_def] at h
  split at h
  · obtain ⟨⟨⟨path, key⟩, _⟩, -, h⟩ := Option.bind_eq_some_iff.1 h
    obtain ⟨_, -, h⟩ := Option.bind_eq_some_iff.1 h
    obtain ⟨_, -, h⟩ := Option.bind_eq_some_iff.1 h
    obtain ⟨_, -, h⟩ := Option.bind_eq_some_iff.1 h
    obtain ⟨root, hroot, h⟩ := Option.bind_eq_some_iff.1 h
    cases h
    exact Draft.beginItem_ordered hs hroot
  · obtain ⟨⟨⟨path, key⟩, _⟩, -, h⟩ := Option.bind_eq_some_iff.1 h
    obtain ⟨_, -, h⟩ := Option.bind_eq_some_iff.1 h
    obtain ⟨_, -, h⟩ := Option.bind_eq_some_iff.1 h
    obtain ⟨root, hroot, h⟩ := Option.bind_eq_some_iff.1 h
    cases h
    exact Draft.beginTable_ordered hs hroot

theorem readEntry_ordered {s s' : Reading} (hs : s.root.Ordered)
    (h : readEntry s cs = some (s', rest)) : s'.root.Ordered := by
  rw [readEntry] at h
  obtain ⟨⟨⟨path, key⟩, _⟩, -, h⟩ := Option.bind_eq_some_iff.1 h
  obtain ⟨_, -, h⟩ := Option.bind_eq_some_iff.1 h
  obtain ⟨⟨v, _⟩, hv, h⟩ := Option.bind_eq_some_iff.1 h
  obtain ⟨_, -, h⟩ := Option.bind_eq_some_iff.1 h
  obtain ⟨root, hroot, h⟩ := Option.bind_eq_some_iff.1 h
  cases h
  exact Draft.set_ordered ((read_ordered _).1 _ _ _ _ hv) hs hroot

theorem readLines_ordered {s : Reading} (hs : s.root.Ordered)
    (h : readLines fuel s cs = some entries) : entries.Ordered := by
  induction fuel generalizing s cs with
  | zero =>
    rw [readLines] at h
    cases h
  | succ fuel ih =>
    rw [readLines] at h
    split at h
    · cases h
      exact hs
    · exact ih hs h
    · obtain ⟨_, -, h⟩ := Option.bind_eq_some_iff.1 h
      exact ih hs h
    · obtain ⟨⟨s', _⟩, hheader, h⟩ := Option.bind_eq_some_iff.1 h
      exact ih (readHeader_ordered hs hheader) h
    · obtain ⟨⟨s', _⟩, hentry, h⟩ := Option.bind_eq_some_iff.1 h
      exact ih (readEntry_ordered hs hentry) h

theorem parse?_ordered {text : String} {entries : Table} (h : parse? text = some entries) :
    (Toml.table entries).Ordered := by
  obtain ⟨drafts, hdrafts, rfl⟩ := Option.map_eq_some_iff.1 h
  exact (readLines_ordered .nil hdrafts).finish

end CssModules.Toml
