import CssModules.Path

namespace CssModules

/-- What a hash placeholder may give once. -/
inductive HashParameter where
  | length
  | algorithm
  | encoding
  deriving DecidableEq, Repr

def HashParameter.word : HashParameter → String
  | .length => "length"
  | .algorithm => "algorithm"
  | .encoding => "encoding"

/-- What is wrong with a hash placeholder. -/
inductive PlaceholderFault where
  | unknownAlgorithm (name : String)
  | emptyParameter
  | lengthTooLarge (digits : String)
  | repeated (parameter : HashParameter)
  | unknownParameter (text : String)
  deriving DecidableEq, Repr

/-- What is wrong with a setting. -/
inductive ConfigurationFault where
  | unknownAlgorithm (name : String)
  | unknownEncoding (name : String)
  | malformedPlaceholder (inner template : String) (fault : PlaceholderFault)
  | invalidPathRegex (pattern : String)
  | unknownKey (key : String)
  | keyWithoutSection (key : String)
  | rootNotTable
  | sectionNotTable (name : String)
  | invalidValue (key : String)
  deriving DecidableEq, Repr

/-- What is wrong with the text of a stylesheet. -/
inductive SyntaxFault where
  | unterminatedComment
  | unterminatedString
  | unexpectedClose
  | unclosedBlock
  | misplacedComposition
  | emptyComposition
  deriving DecidableEq, Repr

/-- A place in a text: lines count from one, and so do the characters of a line. -/
structure Position where
  line : Nat
  column : Nat
  deriving DecidableEq, Repr

/-- An access to files that failed. -/
inductive Access where
  | readingConfig (path : Path)
  | writingConfig (path : Path)
  | reading (path : Path)
  | writing (path : Path)
  | readingStylesheet (path : Path)
  deriving DecidableEq, Repr

/-- All failures. -/
inductive Error where
  | configuration (fault : ConfigurationFault)
  | configInvalid (path : Path)
  | configDirectory (path : Path)
  | stylesheetNotFound (path : Path)
  | stylesheetSyntax (path : Path) (position : Position) (fault : SyntaxFault)
  | cyclicComposition (chain : List Path)
  | missingCompositionTarget (requester : Path) (specifier : String) (chain : List Path)
  | unknownComposedToken (token : String) (target : Path) (chain : List Path)
  | io (access : Access)
  | unwritable
  deriving DecidableEq, Repr

/-- The settings that can be changed one by one. -/
def settingKeys : List String :=
  ["general.log_format", "naming.template", "naming.path_regex", "hash.algorithm", "hash.encoding",
    "hash.length", "hash.salt", "hash.mode", "project.root"]

def unknownAlgorithmText (name : String) : String :=
  "unknown hash algorithm '" ++ name ++
    "' (expected md4, md5, sha1, sha256, sha512, blake3 or xxhash64)"

def invalidConfiguration (text : String) : String := "Invalid configuration: " ++ text

def PlaceholderFault.message : PlaceholderFault → String
  | unknownAlgorithm name => invalidConfiguration (unknownAlgorithmText name)
  | emptyParameter => "empty parameter"
  | lengthTooLarge digits => "invalid length '" ++ digits ++ "'"
  | repeated parameter => parameter.word ++ " given more than once"
  | unknownParameter text => "'" ++ text ++ "' is not a hash algorithm, digest encoding or length"

def ConfigurationFault.message : ConfigurationFault → String
  | unknownAlgorithm name => unknownAlgorithmText name
  | unknownEncoding name =>
    "unknown digest encoding '" ++ name ++ "' (expected hex, base64, base64url or base26..base62)"
  | malformedPlaceholder inner template fault =>
    "malformed placeholder [" ++ inner ++ "] in template '" ++ template ++ "': " ++ fault.message
  | invalidPathRegex pattern => "invalid naming.path_regex '" ++ pattern ++ "'"
  | unknownKey key =>
    "unknown config key '" ++ key ++ "' (valid keys: " ++ ", ".intercalate settingKeys ++ ")"
  | keyWithoutSection key => "expected section.field, got '" ++ key ++ "'"
  | rootNotTable => "configuration root is not a table"
  | sectionNotTable name => "expected table at key: " ++ name
  | invalidValue key => "invalid value for " ++ key

def SyntaxFault.message : SyntaxFault → String
  | unterminatedComment => "unterminated comment"
  | unterminatedString => "unterminated string"
  | unexpectedClose => "unexpected '\x7d'"
  | unclosedBlock => "unclosed block"
  | misplacedComposition => "composition is only allowed in a rule with a single class selector"
  | emptyComposition => "composes without class names"

def Position.text (p : Position) : String := toString p.line ++ ":" ++ toString p.column

def Access.message : Access → String
  | readingConfig path => "reading config from " ++ path.text
  | writingConfig path => "writing config to " ++ path.text
  | reading path => "reading " ++ path.text
  | writing path => "writing " ++ path.text
  | readingStylesheet path => "reading stylesheet " ++ path.text

def chainText (chain : List Path) : String := " -> ".intercalate (chain.map Path.text)

def Error.message : Error → String
  | configuration fault => invalidConfiguration fault.message
  | configInvalid path => "Invalid configuration at " ++ path.text
  | configDirectory path => "Failed to create config directory " ++ path.text
  | stylesheetNotFound path => "Stylesheet not found: " ++ path.text
  | stylesheetSyntax path position fault =>
    "Syntax error in " ++ path.text ++ " at " ++ position.text ++ ": " ++ fault.message
  | cyclicComposition chain => "Cyclic composition: " ++ chainText chain
  | missingCompositionTarget _ specifier chain =>
    "Composition target '" ++ specifier ++ "' not found (requested by " ++ chainText chain ++ ")"
  | unknownComposedToken token target chain =>
    "Unknown composed token '" ++ token ++ "' in " ++ target.text ++ " (requested by " ++
      chainText chain ++ ")"
  | io access => "IO error: " ++ access.message
  | unwritable => "TOML serialize error"

/-- What a reader can do about a failure. -/
def Error.hint? : Error → Option String
  | configuration _ | configInvalid _ => some "Run: scopecss config show"
  | cyclicComposition _ =>
    some "Break the cycle by moving shared classes into their own stylesheet"
  | missingCompositionTarget .. =>
    some "Composition paths are resolved relative to the composing stylesheet"
  | _ => none

theorem bind_eq_ok_iff {ε α β : Type} {x : Except ε α} {f : α → Except ε β} {b : β} :
    x >>= f = .ok b ↔ ∃ a, x = .ok a ∧ f a = .ok b := by
  cases x with
  | ok a => exact ⟨fun h => ⟨a, rfl, h⟩, fun ⟨_, ha, h⟩ => by cases ha; exact h⟩
  | error e => exact ⟨nofun, fun ⟨_, ha, _⟩ => by cases ha⟩

end CssModules
