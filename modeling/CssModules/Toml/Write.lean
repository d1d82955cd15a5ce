import CssModules.Toml.Number
import CssModules.Toml.Quoted
import CssModules.Toml.Value

namespace CssModules.Toml

def booleanText (b : Bool) : List Char := if b then "true".toList else "false".toList

def isTable : Toml → Bool
  | .table _ => true
  | _ => false

mutual

def inline : Toml → List Char
  | .string text => writeString text.toList
  | .integer n => (toString n).toList
  | .float x => (floatText x).toList
  | .boolean b => booleanText b
  | .moment m => m.text.toList
  | .array [] => "[]".toList
  | .array [v] => '[' :: inline v ++ [']']
  | .array items => '[' :: inlineItems items ++ "\n]".toList
  | .table [] => "\x7b\x7d".toList
  | .table entries => '\x7b' :: ' ' :: inlinePairs entries ++ " \x7d".toList

def inlineItems : List Toml → List Char
  | [] => []
  | v :: vs => "\n    ".toList ++ inline v ++ ',' :: inlineItems vs

def inlinePairs : List (String × Toml) → List Char
  | [] => []
  | [(key, v)] => writeKey key.toList ++ " = ".toList ++ inline v
  | (key, v) :: entries =>
    writeKey key.toList ++ " = ".toList ++ inline v ++ ", ".toList ++ inlinePairs entries

end

/-- Whether a value has lines of its own behind a header: it is a table, or a list of one table or
more. -/
def hasHeader : Toml → Bool
  | .table _ => true
  | .array items => !items.isEmpty && items.all isTable
  | _ => false

def line (key : String) (v : Toml) : List Char :=
  writeKey key.toList ++ " = ".toList ++ inline v ++ ['\n']

def valueLines (entries : Table) : List Char :=
  (entries.filter fun (_, v) => !hasHeader v).flatMap fun (key, v) => line key v

def pathText (path : List String) : List Char :=
  ['.'].intercalate (path.map fun key => writeKey key.toList)

/-- The lines of a table by itself: its header, if it has values or nothing at all, and its
values. -/
def block (path : List String) (entries : Table) : List (List Char) :=
  if entries.isEmpty || entries.any (fun (_, v) => !hasHeader v) then
    ['[' :: pathText path ++ "]\n".toList ++ valueLines entries]
  else []

def itemBlock (path : List String) (entries : Table) : List Char :=
  "[[".toList ++ pathText path ++ "]]\n".toList ++ valueLines entries

mutual

def blocks (path : List String) : Toml → List (List Char)
  | .table entries => block path entries ++ entryBlocks path entries
  | .array items =>
    if !items.isEmpty && items.all isTable then itemBlocks path items else []
  | _ => []

def entryBlocks (path : List String) : List (String × Toml) → List (List Char)
  | [] => []
  | (key, v) :: entries => blocks (path ++ [key]) v ++ entryBlocks path entries

def itemBlocks (path : List String) : List Toml → List (List Char)
  | [] => []
  | .table entries :: items =>
    itemBlock path entries :: entryBlocks path entries ++ itemBlocks path items
  | _ :: items => itemBlocks path items

end

/-- The document of a table. A blank line stands before every header that is not at the start. -/
def write (entries : Table) : String :=
  let values := valueLines entries
  let sections := entryBlocks [] entries
  String.ofList (['\n'].intercalate ((if values.isEmpty then [] else [values]) ++ sections))

end CssModules.Toml
