import CssModules.Proofs.Config.Encoding
import CssModules.Proofs.Files.Writing

namespace CssModules

open Toml (Table fieldsOf setting?)

variable {t t' t₁ : FileTree} {cwd place : Place} {p : Path} {key text : String} {entries : Table}
  {e : Error} {α β : Type}

namespace FileAction

theorem bind_apply (x : FileAction α) (f : α → FileAction β) (t : FileTree) :
    (x >>= f) t = match x t with
      | (.ok a, t') => f a t'
      | (.error e, t') => (.error e, t') := by
  have h : (x >>= f) t = ExceptT.bindCont f (x t).1 (x t).2 := rfl
  rw [h]
  generalize x t = r
  obtain ⟨a, t'⟩ := r
  cases a <;> rfl

theorem lift_apply (x : Except Error α) (t : FileTree) : (liftM x : FileAction α) t = (x, t) := rfl

theorem get_apply (t : FileTree) : (get : FileAction FileTree) t = (.ok t, t) := rfl

theorem change_apply (e : Error) (f : FileTree → Except AccessFault FileTree) (t : FileTree) :
    change e f t = match f t with
      | .ok t' => (.ok (), t')
      | .error _ => (.error e, t) := by
  change ((match f t with
    | .ok t' => set t'
    | .error _ => throw e) : FileAction Unit) t = _
  cases f t <;> rfl

end FileAction

namespace Config

def putText (cwd : Place) (access : Path → Access) (p : Path) (text : String) :
    FileAction Unit := do
  makeParent cwd p
  writeText cwd access p text

def tableFor (t : FileTree) (cwd : Place) (p : Path) (key text : String) : Except Error Table := do
  checkKey key
  changed (← tableToChange t cwd p) key text

theorem set_apply (t : FileTree) :
    set cwd p key text t = match tableFor t cwd p key text with
      | .ok entries => putText cwd .writing p (Toml.write entries) t
      | .error e => (.error e, t) := by
  rw [set, tableFor, FileAction.bind_apply, FileAction.lift_apply]
  cases checkKey key with
  | error e => rfl
  | ok =>
    dsimp only
    rw [FileAction.bind_apply, FileAction.get_apply]
    dsimp only
    rw [FileAction.bind_apply, FileAction.lift_apply]
    change _ = match tableToChange t cwd p >>= fun old => changed old key text with
      | .ok entries => putText cwd .writing p (Toml.write entries) t
      | .error e => (.error e, t)
    cases tableToChange t cwd p with
    | error e => rfl
    | ok old =>
      dsimp only
      rw [FileAction.bind_apply, FileAction.lift_apply]
      change _ = match changed old key text with
        | .ok entries => putText cwd .writing p (Toml.write entries) t
        | .error e => (.error e, t)
      cases changed old key text with
      | error e => rfl
      | ok entries => rfl

theorem text_default : Config.default.text = .ok (Toml.write Config.default.toToml) :=
  if_pos (by decide)

theorem save_default (t : FileTree) : save cwd p .default t =
    putText cwd .writingConfig p (Toml.write Config.default.toToml) t := by
  rw [save, text_default, putText, FileAction.bind_apply, FileAction.bind_apply]
  rfl

theorem create_apply (force : Bool) (t : FileTree) :
    create cwd p force t = if t.hasNode cwd p = true ∧ force = false then (.ok false, t)
      else match putText cwd .writingConfig p (Toml.write Config.default.toToml) t with
        | (.ok _, t') => (.ok true, t')
        | (.error e, t') => (.error e, t') := by
  rw [create, FileAction.bind_apply, FileAction.get_apply]
  dsimp only
  by_cases h : t.hasNode cwd p = true ∧ force = false
  · rw [if_pos h, if_pos (by simp [h])]
    rfl
  · rw [if_neg h, if_neg (by simpa using h), FileAction.bind_apply]
    rw [← save_default]
    generalize save cwd p .default t = r
    obtain ⟨a, t'⟩ := r
    cases a <;> rfl

def Writable (t : FileTree) (cwd : Place) (p : Path) : Prop :=
  ∀ text, ∃ t', putText cwd .writing p text t = (.ok (), t')

theorem makeParent_apply (t : FileTree) :
    makeParent cwd p t = match p.parent? with
      | none => (.ok (), t)
      | some directory => match t.makeDirectories cwd directory with
        | .ok t' => (.ok (), t')
        | .error _ => (.error (.configDirectory directory), t) := by
  rw [makeParent]
  cases p.parent? with
  | none => rfl
  | some directory => exact FileAction.change_apply ..

theorem Writable.exists_place (h : Writable t cwd p) :
    ∃ t₁ place, makeParent cwd p t = (.ok (), t₁) ∧ t₁.WritableAt cwd p place := by
  obtain ⟨t', ht⟩ := h ""
  rw [putText, FileAction.bind_apply] at ht
  split at ht
  · next t₁ hmade =>
    rw [writeText, FileAction.change_apply] at ht
    split at ht
    · next hwrite =>
      obtain ⟨place, hplace, -⟩ := FileTree.write_eq_ok hwrite
      exact ⟨t₁, place, hmade, hplace⟩
    · cases ht
  · cases ht

theorem putText_apply (access : Path → Access) (text : String)
    (hmade : makeParent cwd p t = (.ok (), t₁)) (h : t₁.WritableAt cwd p place) :
    putText cwd access p text t = (.ok (), t₁.put place (.file text.toUTF8)) := by
  rw [putText, FileAction.bind_apply, hmade]
  dsimp only
  rw [writeText, FileAction.change_apply, h.write_eq]

theorem writable_put (hmade : makeParent cwd p t = (.ok (), t₁)) (h : t₁.WritableAt cwd p place)
    (content : ByteArray) : Writable (t₁.put place (.file content)) cwd p := by
  have hagain : makeParent cwd p (t₁.put place (.file content)) =
      (.ok (), t₁.put place (.file content)) := by
    rw [makeParent_apply] at hmade ⊢
    cases hparent : p.parent? with
    | none => rfl
    | some directory =>
      rw [hparent] at hmade
      dsimp only at hmade ⊢
      split at hmade
      · next hmake =>
        cases hmade
        rw [FileTree.makeDirectories_put hmake h.no_directory]
      · cases hmade
  exact fun text => ⟨_, putText_apply .writing text hagain (h.put content)⟩

/-- Whether a path leads nowhere, or to a file with a configuration that names can be made with. -/
def Intact (t : FileTree) (cwd : Place) (p : Path) : Prop :=
  t.hasNode cwd p = false ∨ ∃ text entries c, t.readText cwd p = .ok text ∧
    Toml.parse? text = some entries ∧ ofToml? entries = some c ∧
      ∀ directory, ∃ naming, c.namingAt directory = .ok naming

/-- Whether one table is another with the value of a key replaced or added: an integer for the one
key that counts something, and else the text that is given. -/
def Replaced (old new : Table) (key text : String) : Prop :=
  ∃ part name fields v, splitKey key = some (part, name) ∧
    (Toml.get? old part = none ∨ ∃ fields, Toml.get? old part = some (.table fields)) ∧
    (∀ k, Toml.get? new k = if k = part then some (.table fields) else Toml.get? old k) ∧
    (∀ k, Toml.get? fields k = if k = name then some v else Toml.get? (fieldsOf old part) k) ∧
    if key = "hash.length" then ∃ n, Toml.decimal? text.toList = some n ∧ v = .integer n
    else v = .string text

theorem exists_default : ∃ entries, Toml.parse? (Toml.write Config.default.toToml) = some entries ∧
    ofToml? entries = some Config.default :=
  parse?_write_toToml (by decide)

theorem default_sound : Config.default.Sound :=
  namingAt_isOk_iff.1 (exists_naming (d := ⟨"/"⟩) (by decide +kernel))

theorem check_eq_ok (h : check entries key = .ok ()) : ∃ c, ofToml? entries = some c ∧ c.Sound := by
  rw [check] at h
  split at h
  · cases h
  · next c hc =>
    obtain ⟨naming, hnaming, -⟩ := bind_eq_ok_iff.1 h
    exact ⟨c, hc, namingAt_isOk_iff.1 ⟨naming, hnaming⟩⟩

theorem length_isInteger {fields : Table} {c : Config} {v : Toml} (hc : ofToml? entries = some c)
    (hfields : Toml.get? entries "hash" = some (.table fields))
    (hlength : Toml.get? fields "length" = some v) : ∃ n : Nat, v = .integer n := by
  have hhash := HashSection.ofToml?_table.1
    ((sections_of_fieldsOf hc).2.2.1 (Toml.not_isArrayAt_of_table hfields))
  rw [Toml.fieldsOf_of_table hfields] at hhash
  have hfield := hhash.2.2.1
  rw [field, hlength] at hfield
  exact ⟨_, Toml.length?_eq_some_iff.1 hfield⟩

theorem setValue_replaced {old : Table} {c : Config} (h : setValue old key text = .ok entries)
    (hc : ofToml? entries = some c) : Replaced old entries key text := by
  rw [setValue] at h
  split at h
  · cases h
  · next part name hsplit =>
    split at h
    · next fields hfields =>
      have hold : Toml.get? old part = none ∨ Toml.get? old part = some (.table fields) := by
        cases hpart : Toml.get? old part with
        | none => exact .inl rfl
        | some v =>
          rw [hpart, Option.getD_some] at hfields
          exact .inr (congrArg some hfields)
      have hfieldsOf : fieldsOf old part = fields := by
        rcases hold with hnone | hsome
        · rw [hnone] at hfields
          exact (Toml.fieldsOf_of_none hnone).trans (Toml.table.inj hfields)
        · exact Toml.fieldsOf_of_table hsome
      cases h
      refine ⟨part, name, _, valueOf key text, hsplit, hold.imp_right fun h => ⟨fields, h⟩,
        fun k => Toml.get?_insert part k _ old, fun k => ?_, ?_⟩
      · rw [hfieldsOf]
        exact Toml.get?_insert name k _ fields
      · split
        · next hkey =>
          subst hkey
          obtain ⟨rfl, rfl⟩ : "hash" = part ∧ "length" = name := by
            have hlength : splitKey "hash.length" = some ("hash", "length") := by decide +kernel
            simpa using hlength.symm.trans hsplit
          obtain ⟨n, hn⟩ := length_isInteger hc ((Toml.get?_insert ..).trans (if_pos rfl))
            ((Toml.get?_insert ..).trans (if_pos rfl))
          rw [valueOf] at hn ⊢
          split at hn
          · next m hm =>
            rw [hm]
            exact ⟨m, rfl, rfl⟩
          · cases hn
        · next hkey =>
          rw [valueOf]
          split
          · rw [if_neg hkey]
          · rfl
    · cases h

theorem checkKey_eq_ok (h : checkKey key = .ok ()) : key ∈ settingKeys := by
  rw [checkKey] at h
  split at h
  · next hkey => exact List.contains_iff_mem.1 hkey
  · cases h

theorem tableFor_eq_ok (h : tableFor t cwd p key text = .ok entries) :
    key ∈ settingKeys ∧ ∃ old c, tableToChange t cwd p = .ok old ∧ Replaced old entries key text ∧
      ofToml? entries = some c ∧ c.Sound := by
  obtain ⟨_, hkey, h⟩ := bind_eq_ok_iff.1 h
  obtain ⟨old, hold, h⟩ := bind_eq_ok_iff.1 h
  obtain ⟨new, hnew, h⟩ := bind_eq_ok_iff.1 h
  obtain ⟨_, hcheck, h⟩ := bind_eq_ok_iff.1 h
  cases h
  obtain ⟨c, hc, hsound⟩ := check_eq_ok hcheck
  exact ⟨checkKey_eq_ok hkey, old, c, hold, setValue_replaced hnew hc, hc, hsound⟩

/-- A command that changes a configuration. -/
inductive Command where
  | set (key text : String)
  | create (force : Bool)

namespace Command

def perform (cwd : Place) (p : Path) : Command → FileAction Unit
  | set key text => Config.set cwd p key text
  | create force => do
    let _ ← Config.create cwd p force

def table? (cwd : Place) (p : Path) (t : FileTree) : Command → Option Table
  | set key text => (tableFor t cwd p key text).toOption
  | create _ => none

/-- What a command may do to the files. -/
def Keeps (cwd : Place) (p : Path) (t t' : FileTree) : Command → Except Error Unit → Prop
  | set _ _, .error _ => t' = t
  | set key text, .ok () => key ∈ settingKeys ∧ ∃ old new, tableToChange t cwd p = .ok old ∧
      readTable t' cwd .reading p = .ok new ∧ Replaced old new key text
  | create force, _ => force = false → t.hasNode cwd p = true → t' = t

variable {command : Command} {commands : List Command}

/-- A command that fails to set a value leaves all files as they are, as does one that finds a
configuration where it was to create one; all others leave a configuration that names can be made
with. -/
theorem perform_keeps (hwritable : Writable t cwd p) (hintact : Intact t cwd p)
    (hwriter : ∀ entries ∈ command.table? cwd p t,
      Toml.parse? (Toml.write entries) = some entries) :
    Writable (command.perform cwd p t).2 cwd p ∧ Intact (command.perform cwd p t).2 cwd p ∧
      command.Keeps cwd p t (command.perform cwd p t).2 (command.perform cwd p t).1 := by
  obtain ⟨t₁, place, hmade, hplace⟩ := hwritable.exists_place
  cases command with
  | set key text =>
    rw [perform, set_apply]
    rw [table?] at hwriter
    cases htable : tableFor t cwd p key text with
    | error e => exact ⟨hwritable, hintact, rfl⟩
    | ok entries =>
      dsimp only
      rw [putText_apply _ _ hmade hplace]
      obtain ⟨hkey, old, c, hold, hreplaced, hc, hsound⟩ := tableFor_eq_ok htable
      have hparse := hwriter entries (by rw [htable]; rfl)
      have hread := hplace.readText_put (Toml.write entries)
      refine ⟨writable_put hmade hplace _, .inr ⟨_, entries, c, hread, hparse, hc,
        fun _ => namingAt_isOk_iff.2 hsound⟩, hkey, old, entries, hold, ?_, hreplaced⟩
      rw [readTable, hread]
      dsimp only
      rw [hparse]
  | create force =>
    rw [perform, FileAction.bind_apply, create_apply]
    by_cases h : t.hasNode cwd p = true ∧ force = false
    · rw [if_pos h]
      exact ⟨hwritable, hintact, fun _ _ => rfl⟩
    · rw [if_neg h, putText_apply _ _ hmade hplace]
      obtain ⟨entries, hparse, hc⟩ := exists_default
      refine ⟨writable_put hmade hplace _, .inr ⟨_, entries, _, hplace.readText_put _, hparse, hc,
        fun _ => namingAt_isOk_iff.2 default_sound⟩, fun hforce hnode => absurd ⟨hnode, hforce⟩ h⟩

end Command

def run (cwd : Place) (p : Path) : List Command → FileTree → FileTree
  | [], t => t
  | command :: commands, t => run cwd p commands (command.perform cwd p t).2

def tablesWritten (cwd : Place) (p : Path) : List Command → FileTree → List Table
  | [], _ => []
  | command :: commands, t => (command.table? cwd p t).toList ++
      tablesWritten cwd p commands (command.perform cwd p t).2

/-- Whatever commands are given, and in whatever order, each leaves a configuration that names can
be made with, or none, if the tables that are written are read as they are. -/
theorem run_keeps (cwd : Place) (p : Path) (commands : List Command) (t : FileTree)
    (hwritable : Writable t cwd p) (hintact : Intact t cwd p)
    (hwriter : ∀ entries ∈ tablesWritten cwd p commands t,
      Toml.parse? (Toml.write entries) = some entries) :
    ∀ before command after, commands = before ++ command :: after →
      let files := run cwd p before t
      let (outcome, changed) := command.perform cwd p files
      Intact changed cwd p ∧ command.Keeps cwd p files changed outcome := by
  induction commands generalizing t with
  | nil =>
    intro before command after he
    exact absurd he (by simp)
  | cons first commands ih =>
    obtain ⟨hwritable', hintact', hkeeps⟩ := Command.perform_keeps hwritable hintact
      fun entries he => hwriter entries (List.mem_append_left _ (Option.mem_toList.2 he))
    intro before command after he
    cases before with
    | nil =>
      cases he
      exact ⟨hintact', hkeeps⟩
    | cons _ before =>
      cases he
      exact ih _ hwritable' hintact'
        (fun entries he => hwriter entries (List.mem_append_right _ he)) before command after rfl

def newPath : Path := ⟨"/scopecss/config.toml"⟩

def newCommands : List Command :=
  [.set "hash.length" "12", .set "hash.algorithm" "md2", .create false,
    .set "naming.template" "[local]"]

theorem writable_newPath : Writable .empty [] newPath := by
  have hmade : makeParent [] newPath .empty =
      (.ok (), FileTree.empty.put ["scopecss"] .directory) := by rfl
  have hplace : (FileTree.empty.put ["scopecss"] .directory).WritableAt [] newPath
      ["scopecss", "config.toml"] := by
    refine ⟨?_, ?_, ⟨"config.toml".toList, ?_, ?_⟩, ?_⟩
    all_goals decide +kernel
  exact fun text => ⟨_, putText_apply .writing text hmade hplace⟩

theorem parse?_write_newCommands : ∀ entries ∈ tablesWritten [] newPath newCommands .empty,
    Toml.parse? (Toml.write entries) = some entries := by
  decide +kernel

theorem run_keeps_newCommands : Intact (run [] newPath newCommands .empty) [] newPath :=
  (run_keeps [] newPath newCommands .empty writable_newPath (.inl (by decide +kernel))
    parse?_write_newCommands
    [.set "hash.length" "12", .set "hash.algorithm" "md2", .create false]
    (.set "naming.template" "[local]") [] rfl).1

end Config

end CssModules
