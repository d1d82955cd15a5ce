import CssModules.CommandLine.Shapeless
import CssModules.Json.Value
import CssModules.Naming.Generator
import CssModules.Naming.Manifest
import CssModules.Resolution.Session

namespace CssModules.CommandLine

/-- How important a line is. -/
inductive Severity where
  | info
  | debug
  deriving DecidableEq, Repr

/-- Which lines are shown, and whether they are JSON. -/
structure LogFormat where
  verbosity : Nat
  asJson : Bool
  deriving DecidableEq, Repr

def LogFormat.silent : LogFormat := ⟨0, false⟩

def Severity.threshold : Severity → Nat
  | .info => 1
  | .debug => 2

def Severity.word : Severity → String
  | .info => "INFO"
  | .debug => "DEBUG"

def textLine (s : Severity) (message : String) : String :=
  String.ofList (List.replicate (5 - s.word.length) ' ') ++ s.word ++ " " ++ message ++ "\n"

def jsonLine (s : Severity) (message : String) : String :=
  "\x7b\"level\":" ++ JsonValue.quote s.word ++ ",\"fields\":\x7b\"message\":" ++
    JsonValue.quote message ++ "\x7d\x7d\n"

def LogFormat.line (f : LogFormat) (s : Severity) (message : String) : String :=
  if f.verbosity < s.threshold then ""
  else if f.asJson then jsonLine s message
  else textLine s message

/-- The message for something that happened. Being asked for a stylesheet is not worth one. -/
def eventMessage? : Event → Option String
  | .asked _ => none
  | .parsed p classes compositions =>
    some ("Parsed " ++ p.text ++ ": " ++ toString classes ++ " classes, " ++
      toString compositions ++ " compositions")
  | .named package =>
    some ("Package " ++ package.name ++ " from " ++ (Package.manifestPath package.root).text)
  | .released p => some ("Released " ++ p.text ++ " after failed resolution")

def LogFormat.session (f : LogFormat) (s : Session) : String :=
  String.join ((s.events.reverse.filterMap eventMessage?).map (f.line .debug))

def codeText (c : Char) : String := String.ofList (Nat.toDigits 16 c.toNat)

def quotedChar (c : Char) : String :=
  match c with
  | '"' => "\\\""
  | '\\' => "\\\\"
  | '\n' => "\\n"
  | '\r' => "\\r"
  | '\t' => "\\t"
  | '\x00' => "\\0"
  | c =>
    if c.toNat < 0x20 || c == '\x7f' || isShapeless c then "\\u\x7b" ++ codeText c ++ "\x7d"
    else String.singleton c

def quoted (text : String) : String := "\"" ++ String.join (text.toList.map quotedChar) ++ "\""

def optionText {α : Type} (f : α → String) : Option α → String
  | some a => "Some(" ++ f a ++ ")"
  | none => "None"

def algorithmText : Digest.Algorithm → String
  | .md4 => "Md4"
  | .md5 => "Md5"
  | .sha1 => "Sha1"
  | .sha256 => "Sha256"
  | .sha512 => "Sha512"
  | .blake3 => "Blake3"
  | .xxhash64 => "Xxhash64"

def encodingText : Digest.Encoding → String
  | .hex => "Hex"
  | .base64 => "Base64"
  | .base64Url => "Base64Url"
  | .positional alphabet => "Base(" ++ toString alphabet.base ++ ")"

def segmentText : Segment → String
  | .literal text => "Literal(" ++ quoted text ++ ")"
  | .path => "Path"
  | .name => "Name"
  | .ext => "Ext"
  | .file => "File"
  | .folder => "Folder"
  | .package => "Package"
  | .localName => "Local"
  | .hash o =>
    "Hash(HashOverrides \x7b algorithm: " ++ optionText algorithmText o.algorithm ++
      ", encoding: " ++ optionText encodingText o.encoding ++
      ", length: " ++ optionText toString o.length ++ " \x7d)"
  | .capture n => "Capture(" ++ toString n ++ ")"

def strategyText : Strategy → String
  | .template t =>
    "Template(Template \x7b source: " ++ quoted t.source ++ ", segments: [" ++
      ", ".intercalate (t.segments.map segmentText) ++ "] \x7d)"
  | .callback _ => "Callback(..)"

end CssModules.CommandLine
