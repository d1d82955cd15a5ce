import CssModules.Stylesheet.Composition
import CssModules.Stylesheet.Lexeme
import CssModules.Stylesheet.Selector

namespace CssModules

/-- The classes that a stylesheet declares, each once and in order, and its compositions. -/
structure Stylesheet where
  localNames : List String
  compositions : List Composition
  deriving DecidableEq, Repr

def Stylesheet.empty : Stylesheet := ⟨[], []⟩

namespace Stylesheet

/-- What a block holds. -/
inductive BlockKind where
  | rule
  | group
  | keyframes
  | other
  deriving DecidableEq, Repr

/-- An open block: its kind, the class that is its whole selector, and where it opened. -/
structure Block where
  kind : BlockKind
  soleClass : Option String
  start : Position
  deriving DecidableEq, Repr

/-- What has been read: declarations, open blocks, innermost first, and the text since the last
brace or semicolon, with the position of its first character that is not blank. -/
structure Reading where
  found : Stylesheet
  blocks : List Block
  text : List Char
  textStart : Option Position
  deriving DecidableEq, Repr

def Reading.initial : Reading := ⟨.empty, [], [], none⟩

def atRuleKind (text : List Char) : BlockKind :=
  let name := (text.takeWhile fun c => !Text.isSpace c && c != '(').map Char.toLower
  if "keyframes".toList.isSuffixOf name then .keyframes
  else if ["media", "supports", "layer", "container", "document", "scope"].contains
      (String.ofList name) then .group
  else .other

def addNames (names : List String) (classes : List String) : List String :=
  classes.foldl (fun names c => if names.contains c then names else names ++ [c]) names

def Reading.clear (r : Reading) : Reading := { r with text := [], textStart := none }

/-- Opens a block at a position, the text read being its selector or at-rule. -/
def Reading.openBlock (r : Reading) (start : Position) : Reading :=
  let prelude := Text.trim r.text
  match prelude, r.blocks.head?.map Block.kind with
  | '@' :: rule, _ =>
    { r.clear with blocks := ⟨atRuleKind rule, none, start⟩ :: r.blocks }
  | _, some .keyframes => { r.clear with blocks := ⟨.other, none, start⟩ :: r.blocks }
  | _, _ =>
    let classes := Selector.localClasses prelude
    let sole := match classes with
      | [c] => if prelude = '.' :: c then some (String.ofList c) else none
      | _ => none
    { r.clear with
      found :=
        { r.found with
          localNames := addNames r.found.localNames (classes.map String.ofList) }
      blocks := ⟨.rule, sole, start⟩ :: r.blocks }

/-- Ends a declaration, the text read being the whole of it, in the stylesheet at a path. -/
def Reading.declare (r : Reading) (stylesheet : Path) : Except (Position × SyntaxFault) Reading :=
  match Composition.splitColon (Text.trim r.text) with
  | none => .ok r.clear
  | some (property, value) =>
    if !Composition.isComposing property then .ok r.clear
    else
      let start := r.textStart.getD ⟨1, 1⟩
      match r.blocks with
      | ⟨.rule, some localAlias, _⟩ :: _ =>
        let (names, source) := Composition.splitSource stylesheet (Text.trim value)
        let tokens := Composition.tokensOf names
        if tokens.isEmpty then .error (start, .emptyComposition)
        else .ok { r.clear with
          found :=
            { r.found with
              compositions := r.found.compositions ++ [⟨localAlias, tokens, source⟩] } }
      | _ => .error (start, .misplacedComposition)

def Reading.step (stylesheet : Path) (r : Reading) : Lexeme → Except (Position × SyntaxFault) Reading
  | .text start chars =>
    let begins := r.textStart.isNone && chars.head?.any (!Text.isSpace ·)
    .ok { r with
      text := r.text ++ chars
      textStart := if begins then some start else r.textStart }
  | .opening start => .ok (r.openBlock start)
  | .semicolon _ => r.declare stylesheet
  | .closing start => do
    let r ← r.declare stylesheet
    match r.blocks with
    | [] => .error (start, .unexpectedClose)
    | _ :: blocks => .ok { r with blocks := blocks }
  | .fault start fault => .error (start, fault)

def Reading.finish (r : Reading) : Except (Position × SyntaxFault) Stylesheet :=
  match r.blocks with
  | [] => .ok r.found
  | block :: _ => .error (block.start, .unclosedBlock)

def ofLexemes (stylesheet : Path) (lexemes : List Lexeme) :
    Except (Position × SyntaxFault) Stylesheet := do
  (← lexemes.foldlM (Reading.step stylesheet) .initial).finish

/-- Reads the text of the stylesheet at a path. -/
def parse (stylesheet : Path) (source : String) : Except Error Stylesheet :=
  match ofLexemes stylesheet (Lexeme.ofText source.toList) with
  | .ok sheet => .ok sheet
  | .error (position, fault) => .error (.stylesheetSyntax stylesheet position fault)

end Stylesheet

end CssModules
