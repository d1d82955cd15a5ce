import CssModules.Toml.Value

namespace CssModules.Toml

/-- What has made a table: its own header or braces, the header of a table within it, or a dotted
key. -/
inductive Origin where
  | own
  | header
  | dotted
  deriving DecidableEq, Repr

/-- What stands behind a key so far: a value, a table that may still grow, or a list of tables, of
which the last may still grow. -/
inductive Draft where
  | value (v : Toml)
  | table (origin : Origin) (entries : List (String × Draft))
  | series (last : List (String × Draft)) (earlier : List Draft)

namespace Draft

abbrev Entries := List (String × Draft)

def replace (key : String) (d : Draft) (entries : Entries) : Entries :=
  entries.map fun (k, old) => if k = key then (k, d) else (k, old)

/-- Changes the table at the end of a path. Tables that are missing on the way are made, of the
given origin, and tables that are there are entered if `enter` says so; of a list of tables the last
one is entered. -/
def change (missing : Origin) (enter : Origin → Bool)
    (f : Origin → Entries → Option Entries) :
    (path : List String) → Origin → Entries → Option Entries
  | [], origin, entries => f origin entries
  | key :: path, _, entries =>
    match entries.lookup key with
    | none => do
      let made ← change missing enter f path missing []
      some (entries ++ [(key, .table missing made)])
    | some (.value _) => none
    | some (.table origin inner) =>
      if enter origin then do
        let inner ← change missing enter f path origin inner
        some (replace key (.table origin inner) entries)
      else none
    | some (.series last earlier) => do
      let last ← change missing enter f path .own last
      some (replace key (.series last earlier) entries)

def add (key : String) (d : Draft) (entries : Entries) : Option Entries :=
  if (entries.lookup key).isSome then none else some (entries ++ [(key, d)])

/-- Gives a value to a dotted key. The tables on its way must have been made by dotted keys or by
headers of others, and the innermost by dotted keys. -/
def setDotted (path : List String) (key : String) (v : Toml) (origin : Origin) (entries : Entries) :
    Option Entries :=
  change .dotted (· ≠ .own)
    (fun inner entries =>
      if path.isEmpty || inner == .dotted then add key (.value v) entries else none)
    path origin entries

/-- Gives a value to a dotted key of the table with the given header. -/
def set (header path : List String) (key : String) (v : Toml) (root : Entries) : Option Entries :=
  change .header (fun _ => true) (setDotted path key v) header .own root

/-- Begins the table with a header; other headers may have named it already, but nothing else. -/
def beginTable (path : List String) (key : String) (root : Entries) : Option Entries :=
  change .header (fun _ => true)
    (fun _ entries => match entries.lookup key with
      | none => some (entries ++ [(key, .table .own [])])
      | some (.table .header inner) => some (replace key (.table .own inner) entries)
      | some _ => none)
    path .own root

def beginItem (path : List String) (key : String) (root : Entries) : Option Entries :=
  change .header (fun _ => true)
    (fun _ entries => match entries.lookup key with
      | none => some (entries ++ [(key, .series [] [])])
      | some (.series last earlier) =>
        some (replace key (.series [] (.table .own last :: earlier)) entries)
      | some _ => none)
    path .own root

mutual

def finish : Draft → Toml
  | .value v => v
  | .table _ entries => .table (finishEntries entries)
  | .series last earlier => .array (finishSeries [.table (finishEntries last)] earlier)

def finishEntries : List (String × Draft) → Table
  | [] => []
  | (key, d) :: entries => Toml.insert key (finish d) (finishEntries entries)

def finishSeries (done : List Toml) : List Draft → List Toml
  | [] => done
  | d :: earlier => finishSeries (finish d :: done) earlier

end

end Draft

end CssModules.Toml
