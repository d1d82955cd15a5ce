import CssModules.Text.Space

namespace CssModules

/-- The classes of a stylesheet with their identifiers, each class once. -/
structure TokenMap where
  entries : List (String × String)
  deriving DecidableEq, Repr

namespace TokenMap

def empty : TokenMap := ⟨[]⟩

def get? (m : TokenMap) (name : String) : Option String := m.entries.lookup name

def contains (m : TokenMap) (name : String) : Bool := (m.get? name).isSome

def size (m : TokenMap) : Nat := m.entries.length

/-- A new class with its identifiers; one that is there already keeps its own. -/
def insert (m : TokenMap) (name identifiers : String) : TokenMap :=
  if m.contains name then m else ⟨m.entries ++ [(name, identifiers)]⟩

def insertNew (m : TokenMap) (name identifiers : String) : Bool × TokenMap :=
  match m.get? name with
  | some _ => (false, m)
  | none => (true, ⟨m.entries ++ [(name, identifiers)]⟩)

/-- A list of identifiers with one more, if it is not in there already. -/
def addWord (identifiers word : String) : String :=
  if (Text.words identifiers).contains word then identifiers
  else if identifiers.isEmpty then word
  else identifiers ++ " " ++ word

def addWords (identifiers : String) (others : List String) : String :=
  (others.flatMap Text.words).foldl addWord identifiers

def change (name : String) (f : String → String) : List (String × String) → List (String × String)
  | [] => [(name, f "")]
  | (key, value) :: entries =>
    if key = name then (key, f value) :: entries else (key, value) :: change name f entries

/-- Gives a class further identifiers, behind those that it has. -/
def compose (m : TokenMap) (name : String) (identifiers : List String) : TokenMap :=
  ⟨change name (addWords · identifiers) m.entries⟩

end TokenMap

end CssModules
