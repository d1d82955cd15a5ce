import CssModules.Template.Segment
import CssModules.Text.Split

namespace CssModules.Placeholder

def numberLimit : Nat := Nat.pow 2 64

def simpleSegment? (word : String) : Option Segment :=
  match word with
  | "path" => some .path
  | "name" => some .name
  | "ext" => some .ext
  | "file" => some .file
  | "folder" => some .folder
  | "package" => some .package
  | "local" => some .localName
  | _ => none

def isNumber (text : List Char) : Bool := !text.isEmpty && text.all Char.isDigit

def numberValue (digits : List Char) : Nat :=
  digits.foldl (fun n c => 10 * n + (c.toNat - '0'.toNat)) 0

def isHashWord (word : List Char) : Bool :=
  word == "hash".toList || word == "contenthash".toList || word == "fullhash".toList

def addParameter (o : Overrides) (text : List Char) : Except PlaceholderFault Overrides :=
  let word := String.ofList text
  if text.isEmpty then .error .emptyParameter
  else if text.all Char.isDigit then
    if numberValue text < numberLimit then
      if o.length.isSome then .error (.repeated .length)
      else .ok { o with length := some (numberValue text) }
    else .error (.lengthTooLarge word)
  else match Digest.Algorithm.ofName? word, Digest.Encoding.ofName? word with
    | some a, _ =>
      if o.algorithm.isSome then .error (.repeated .algorithm)
      else .ok { o with algorithm := some a }
    | none, some e =>
      if o.encoding.isSome then .error (.repeated .encoding)
      else .ok { o with encoding := some e }
    | none, none => .error (.unknownParameter word)

/-- What a hash placeholder says, given the text before its hash word, if there is one, and the
parameters behind it. -/
def overrides (algorithm : Option (List Char)) (parameters : List (List Char)) :
    Except PlaceholderFault Overrides :=
  match algorithm with
  | none => parameters.foldlM addParameter .none
  | some text =>
    match Digest.Algorithm.ofName? (String.ofList text) with
    | some a => parameters.foldlM addParameter { Overrides.none with algorithm := some a }
    | none => .error (.unknownAlgorithm (String.ofList text).toLower)

/-- The segment of a text between brackets; `none` if it is no placeholder and stands for itself. -/
def classify (inner : List Char) : Except PlaceholderFault (Option Segment) :=
  let lower := inner.map Char.toLower
  match simpleSegment? (String.ofList lower) with
  | some s => .ok (some s)
  | none =>
    if isNumber lower then
      .ok (if numberValue lower < numberLimit then some (.capture (numberValue lower)) else none)
    else match Text.splitAt ':' lower with
      | [] => .ok none
      | word :: parameters =>
        if isHashWord word then (some ∘ .hash) <$> overrides none parameters
        else match parameters with
          | hash :: parameters =>
            if isHashWord hash then (some ∘ .hash) <$> overrides (some word) parameters
            else .ok none
          | [] => .ok none

end CssModules.Placeholder
