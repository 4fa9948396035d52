import LineCompiler.Assembly.Sections
import LineCompiler.Draws

/-!
# Emissions

Generating code for a node gives an emission: writes to sections, in order, the draws that are left,
and a fault if the generation failed.  A failure keeps the writes made before it and the draws taken
before it.
-/

namespace LineCompiler

/-- Code for a block of a section. -/
structure Write where
  target : SectionName
  label : String := noLabel
  code : List String
  deriving DecidableEq

/-- What the generation of code gives. -/
structure Emission where
  writes : List Write := []
  draws : Draws
  fault : Option Fault := none

namespace Emission

/-- An emission of some writes. -/
def write (draws : Draws) (writes : List Write) : Emission :=
  { writes, draws }

/-- An emission that fails. -/
def fail (draws : Draws) (fault : Fault) : Emission :=
  { draws, fault := some fault }

/-- An emission of writes that may fail to be made. -/
def ofExcept (draws : Draws) (writes : Except Fault (List Write)) : Emission :=
  match writes with
  | .ok writes => write draws writes
  | .error fault => fail draws fault

/-- One emission and then another, which goes on with the draws that the first has left and is not
reached if the first fails. -/
def andThen (first : Emission) (second : Draws → Emission) : Emission :=
  match first.fault with
  | some _ => first
  | none =>
      let after := second first.draws
      { after with writes := first.writes ++ after.writes }

end Emission

/-- Sections after some writes. -/
def Sections.apply (sections : Sections) (writes : List Write) : Sections :=
  writes.foldl (fun sections write => sections.add write.target write.label write.code) sections

end LineCompiler
