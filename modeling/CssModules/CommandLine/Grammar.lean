import CssModules.Path

namespace CssModules.CommandLine

/-- The program itself and its commands. -/
inductive Command where
  | program
  | name
  | resolve
  | escape
  | unescape
  | config
  | configShow
  | configPath
  | configInit
  | configSet
  deriving DecidableEq, Repr

/-- What an option does: it is there or not, it counts, it takes a value, or it ends the call. -/
inductive Kind where
  | flag
  | counter
  | value (isValid : String → Bool)
  | help
  | version

/-- An option. -/
structure Switch where
  long : String
  short : Option Char
  kind : Kind

def isPath (text : String) : Bool := !text.isEmpty

def formatNames : List String := ["json", "plain"]

def sharedOptions : List Switch :=
  [⟨"verbose", some 'v', .counter⟩, ⟨"config", some 'c', .value isPath⟩,
    ⟨"no-local", none, .flag⟩, ⟨"help", some 'h', .help⟩, ⟨"version", some 'V', .version⟩]

def Command.ownOptions : Command → List Switch
  | .name => [⟨"template", some 't', .value fun _ => true⟩]
  | .resolve => [⟨"format", some 'f', .value formatNames.contains⟩]
  | .escape | .configSet => [⟨"local", none, .flag⟩]
  | .configInit => [⟨"force", some 'f', .flag⟩, ⟨"local", none, .flag⟩]
  | _ => []

def Command.options (c : Command) : List Switch := c.ownOptions ++ sharedOptions

def Command.children : Command → List (String × Command)
  | .program =>
    [("name", .name), ("resolve", .resolve), ("escape", .escape), ("unescape", .unescape),
      ("config", .config)]
  | .config =>
    [("show", .configShow), ("path", .configPath), ("init", .configInit), ("set", .configSet)]
  | _ => []

def Command.words : Command → List (String → Bool)
  | .name => [fun _ => true, isPath]
  | .resolve => [isPath]
  | .escape | .unescape => [fun _ => true]
  | .configSet => [fun _ => true, fun _ => true]
  | _ => []

def Command.repeatsLast (c : Command) : Bool := c == .resolve

def Command.title : Command → String
  | .program => "scopecss"
  | .name => "scopecss-name"
  | .resolve => "scopecss-resolve"
  | .escape => "scopecss-escape"
  | .unescape => "scopecss-unescape"
  | .config => "scopecss-config"
  | .configShow => "scopecss-config-show"
  | .configPath => "scopecss-config-path"
  | .configInit => "scopecss-config-init"
  | .configSet => "scopecss-config-set"

/-- Why a call is not carried out. -/
inductive Stop where
  | misuse
  | help (c : Command)
  | version (c : Command)
  deriving DecidableEq, Repr

/-- What one level has been given so far: its options with their values, its words, the option that
waits for its value, and whether only words may follow. -/
structure Level where
  command : Command
  given : List (String × String)
  words : List String
  waiting : Option Switch
  wordsOnly : Bool

namespace Level

def start (c : Command) : Level := ⟨c, [], [], none, false⟩

def value? (l : Level) (long : String) : Option String := l.given.lookup long

def count (l : Level) (long : String) : Nat := l.given.countP (·.1 == long)

def take (l : Level) (o : Switch) (value : String) : Except Stop Level :=
  let taken := { l with given := l.given ++ [(o.long, value)], waiting := none }
  let once : Except Stop Level := if l.count o.long = 0 then .ok taken else .error .misuse
  match o.kind with
  | .help => .error (.help l.command)
  | .version => .error (.version l.command)
  | .counter => .ok taken
  | .flag => once
  | .value isValid => if isValid value then once else .error .misuse

/-- Takes an option by its long name, with a value behind `=` if there is one. -/
def takeLong (l : Level) (word : List Char) : Except Stop Level :=
  let long := String.ofList (word.takeWhile (· != '='))
  match l.command.options.find? (·.long == long), word.dropWhile (· != '=') with
  | none, _ => .error .misuse
  | some o, '=' :: value =>
    match o.kind with
    | .value _ => l.take o (String.ofList value)
    | _ => .error .misuse
  | some o, _ =>
    match o.kind with
    | .value _ => .ok { l with waiting := some o }
    | _ => l.take o ""

def attached : List Char → List Char
  | '=' :: value => value
  | value => value

/-- Takes options by their letters. The first one that takes a value has the rest of the word as its
value, or the next word if nothing is left. -/
def takeShort (l : Level) : List Char → Except Stop Level
  | [] => .ok l
  | c :: cs =>
    match l.command.options.find? (·.short == some c) with
    | none => .error .misuse
    | some o =>
      match o.kind with
      | .value _ =>
        if cs.isEmpty then .ok { l with waiting := some o }
        else l.take o (String.ofList (attached cs))
      | _ =>
        match l.take o "" with
        | .ok l => l.takeShort cs
        | .error e => .error e

def takeWord (l : Level) (word : String) : Except Stop Level :=
  let wanted := l.command.words
  let isValid? := match wanted[l.words.length]? with
    | some isValid => some isValid
    | none => if l.command.repeatsLast then wanted.getLast? else none
  match isValid? with
  | some isValid =>
    if isValid word then .ok { l with words := l.words ++ [word] } else .error .misuse
  | none => .error .misuse

/-- Takes the next word of a call: the value that an option waits for, an option, the mark behind
which only words follow, or a word. -/
def next (l : Level) (word : String) : Except Stop Level :=
  if l.wordsOnly then l.takeWord word
  else
    match l.waiting, word.toList with
    | none, ['-', '-'] => .ok { l with wordsOnly := true }
    | none, '-' :: '-' :: long => l.takeLong long
    | none, '-' :: c :: cs => l.takeShort (c :: cs)
    | none, _ => l.takeWord word
    | some _, '-' :: _ :: _ => .error .misuse
    | some o, _ => l.take o word

def isComplete (l : Level) : Bool :=
  l.waiting.isNone && l.command.words.length ≤ l.words.length

end Level

/-- The level that a request for help names. -/
def helpOn (c : Command) : List String → Stop
  | [] => .help c
  | word :: words =>
    match c.children.lookup word with
    | some child => helpOn child words
    | none => if word == "help" && words.isEmpty && !c.children.isEmpty then .help c else .misuse

def readCall (l : Level) (outer : List Level) : List String → Except Stop (List Level)
  | [] =>
    if l.isComplete && l.command != .program then .ok (l :: outer) else .error .misuse
  | word :: words =>
    if !l.wordsOnly && l.waiting.isNone then
      match l.command.children.lookup word with
      | some child => readCall (Level.start child) (l :: outer) words
      | none =>
        if word == "help" && !l.command.children.isEmpty then .error (helpOn l.command words)
        else
          match l.next word with
          | .ok l => readCall l outer words
          | .error e => .error e
    else
      match l.next word with
      | .ok l => readCall l outer words
      | .error e => .error e

end CssModules.CommandLine
