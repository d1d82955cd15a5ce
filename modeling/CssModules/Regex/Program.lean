import CssModules.Regex.Syntax

namespace CssModules.Regex

/-- An instruction, with the ones that follow it in order of preference. -/
inductive Instruction where
  | accept
  | take (s : CharSet) (next : Nat)
  | check (l : Look) (next : Nat)
  | save (slot next : Nat)
  | choose (alternatives : List Nat)
  deriving Repr

abbrev Program := Array Instruction

def emit (i : Instruction) (p : Program) : Nat × Program := (p.size, p.push i)

/-- A choice between going on with `first` and leaving with `second`, in this order if `greedy`. -/
def choice (greedy : Bool) (first second : Nat) : Instruction :=
  .choose (if greedy then [first, second] else [second, first])

def iterate (f : Nat → Program → Nat × Program) : Nat → Nat → Program → Nat × Program
  | 0, next, p => (next, p)
  | count + 1, next, p =>
    let (start, p) := f next p
    iterate f count start p

def Expr.compile : Expr → (next : Nat) → Program → Nat × Program
  | .empty, next, p => (next, p)
  | .set s, next, p => emit (.take s next) p
  | .look l, next, p => emit (.check l next) p
  | .group index e, next, p =>
    let (close, p) := emit (.save (2 * index + 1) next) p
    let (start, p) := e.compile close p
    emit (.save (2 * index) start) p
  | .concat e f, next, p =>
    let (middle, p) := f.compile next p
    e.compile middle p
  | .alternate e f, next, p =>
    let (second, p) := f.compile next p
    let (first, p) := e.compile next p
    emit (.choose [first, second]) p
  | .repeated e least (some most) greedy, next, p =>
    let (start, p) := iterate
      (fun after p =>
        let (start, p) := e.compile after p
        emit (choice greedy start next) p) (most - least) next p
    iterate e.compile least start p
  | .repeated e least none greedy, next, p =>
    let (loop, p) := emit (.choose []) p
    let (start, p) := e.compile loop p
    let p := p.setIfInBounds loop (choice greedy start next)
    if least = 0 then
      if e.isNullable then emit (choice greedy start next) p else (loop, p)
    else iterate e.compile (least - 1) start p

/-- A compiled expression: its instructions, the first of them, and the number of its groups. -/
structure Matcher where
  program : Program
  start : Nat
  groups : Nat
  deriving Repr

def Matcher.ofExpr (e : Expr) : Matcher :=
  let (start, program) := (Expr.group 0 e).compile 0 #[.accept]
  ⟨program, start, e.groupCount⟩

/-- A path on its way: its next instruction, its place, and where groups began and ended. -/
structure Thread where
  instruction : Nat
  place : Nat
  slots : Array (Option Nat)

def Thread.step (t : Thread) (text : Array Char) : Instruction → List Thread
  | .accept => []
  | .take s next =>
    match text[t.place]? with
    | some c => if s.contains c.toNat then [{ t with instruction := next, place := t.place + 1 }] else []
    | none => []
  | .check l next =>
    let before := if t.place = 0 then none else text[t.place - 1]?
    if l.holds before text[t.place]? then [{ t with instruction := next }] else []
  | .save slot next =>
    [{ t with instruction := next, slots := t.slots.setIfInBounds slot (some t.place) }]
  | .choose alternatives => alternatives.map fun i => { t with instruction := i }

/-- Follows the threads, the first one to its end before the next one; `visited` marks where
threads have been. Every turn drops a thread or marks a new pair of instruction and place. -/
def search (p : Program) (text : Array Char) :
    (fuel : Nat) → (visited : Array Bool) → List Thread → Option (Array (Option Nat))
  | 0, _, _ => none
  | _, _, [] => none
  | fuel + 1, visited, t :: threads =>
    let mark := t.place * p.size + t.instruction
    if visited.getD mark true then search p text fuel visited threads
    else
      let visited := visited.setIfInBounds mark true
      match p[t.instruction]? with
      | some .accept => some t.slots
      | some i => search p text fuel visited (t.step text i ++ threads)
      | none => search p text fuel visited threads

def Instruction.degree : Instruction → Nat
  | .choose alternatives => alternatives.length
  | _ => 1

namespace Matcher

/-- More turns than a search can take: one for each way into a pair of instruction and place. -/
def turns (m : Matcher) (text : Array Char) : Nat :=
  (m.program.foldl (fun n i => n + i.degree) 1) * (text.size + 1) + 1

def matchAt (m : Matcher) (text : Array Char) (place : Nat) : Option (Array (Option Nat)) :=
  search m.program text (m.turns text)
    (Array.replicate (m.program.size * (text.size + 1)) false)
    [⟨m.start, place, Array.replicate (2 * m.groups) none⟩]

/-- The leftmost match in a text: for each group what it took, if it took part. -/
def captures (m : Matcher) (subject : String) : Option (List (Option String)) :=
  let text := subject.toList.toArray
  ((List.range (text.size + 1)).findSome? (m.matchAt text)).map fun slots =>
    (List.range m.groups).map fun i =>
      match slots.getD (2 * i) none, slots.getD (2 * i + 1) none with
      | some first, some last => some (String.ofList (text.extract first last).toList)
      | _, _ => none

end Matcher

end CssModules.Regex
