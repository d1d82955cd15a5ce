import CssModules.Digest.Spec

namespace CssModules

/-- What one hash placeholder says about its digest; where it says nothing the settings decide. -/
structure Overrides where
  algorithm : Option Digest.Algorithm
  encoding : Option Digest.Encoding
  length : Option Nat
  deriving DecidableEq, Repr

def Overrides.none : Overrides := ⟨Option.none, Option.none, Option.none⟩

instance : Inhabited Overrides := ⟨.none⟩

def Overrides.resolve (o : Overrides) (settings : Digest.Spec) : Digest.Spec where
  algorithm := o.algorithm.getD settings.algorithm
  encoding := o.encoding.getD settings.encoding
  length := o.length.or settings.length

/-- A piece of a template: text that stands for itself, or a placeholder. -/
inductive Segment where
  | literal (text : String)
  | path
  | name
  | ext
  | file
  | folder
  | package
  | localName
  | hash (overrides : Overrides)
  | capture (group : Nat)
  deriving DecidableEq, Repr

/-- A name template: its source and its segments in order. -/
structure Template where
  source : String
  segments : List Segment
  deriving DecidableEq, Repr

def Template.needsPackage (t : Template) : Bool := t.segments.contains .package

end CssModules
