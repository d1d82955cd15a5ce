import CssModules.Proofs.Resolution.Flight
import CssModules.Proofs.Resolution.Interleaving
import CssModules.Proofs.Resolution.Keys
import CssModules.Proofs.Resolution.Supply

namespace CssModules

open Relation

namespace Session

variable {s : Session} {l : Location} {p : Path}

end Session

namespace Library

variable {lib : Library} {files : Set Path} {root p q : Path} {frames outer : List Frame}

def HasMap (lib : Library) (p : Path) : Prop := ∃ m, lib.Evaluates [] (.request p) (.ok m)

def Fits (lib : Library) (p : Path) (map : TokenMap) : Prop :=
  ∀ m, lib.Evaluates [] (.request p) (.ok m) → map.SameKeys m

theorem HasMap.respell (h : lib.HasMap p) (hc : lib.Coherent files) (hp : p ∈ files)
    (hq : q ∈ files) (hl : p.location = q.location) : lib.HasMap q := by
  obtain ⟨m, hm⟩ := h
  have hu := hc.uniform_sameKeys
  obtain ⟨m', hm', -⟩ := hm.respell hu.congruence hc hp hq hl
    fun names => hu.declared names hp hq hl
  exact ⟨m', hm'⟩

theorem Fits.respell {map : TokenMap} (h : lib.Fits p map) (hc : lib.Coherent files)
    (hp : p ∈ files) (hq : q ∈ files) (hl : q.location = p.location) : lib.Fits q map := by
  intro m hm
  have hu := hc.uniform_sameKeys
  obtain ⟨m', hm', hlike⟩ := hm.respell hu.congruence hc hq hp hl
    fun names => hu.declared names hq hp hl
  exact (h m' hm').trans hlike.symm

end Library

namespace System

variable {read : Path → Except Error Stylesheet} {n : Naming} {name? : Path → Option String}
  {lib : Library} {files : Set Path} {roots : List Path} {s s' : System Session} {p : Path}

end System

namespace Session

end Session

end CssModules
