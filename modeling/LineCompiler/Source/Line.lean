import LineCompiler.Atom

/-!
# Source lines

The lines of a source are numbered from one; a line that is given by itself may have any atom for
its number.  Empty lines are counted but not kept.  Each kept line is linked to its neighbours: the
line before it is the kept line before it, and the line after it is the next kept line or, when only
empty lines follow, the last of those.
-/

namespace LineCompiler

/-- A kept line of a source. -/
structure SourceLine where
  number : Atom
  content : String
  previous : Option Nat := none
  next : Option Nat := none
  deriving DecidableEq

namespace SourceLine

/-- The number of the line after line `number`, given the lines that follow. -/
def follower (number : Nat) : List String → Option Nat
  | [] => none
  | content :: rest =>
      if content = "" then (follower (number + 1) rest).or (some (number + 1))
      else some (number + 1)

/-- The kept lines among `lines`, which start with line `number` after the kept line `previous`. -/
def linkFrom (number : Nat) (previous : Option Nat) : List String → List SourceLine
  | [] => []
  | content :: rest =>
      if content = "" then linkFrom (number + 1) previous rest
      else
        { number := .integer number, content, previous, next := follower number rest } ::
          linkFrom (number + 1) (some number) rest

/-- The kept lines of a source. -/
def link (lines : List String) : List SourceLine :=
  linkFrom 1 none lines

end SourceLine

end LineCompiler
