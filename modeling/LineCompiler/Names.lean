/-!
# Declared names

The names that a source declares are kept in four collections, in the order of their declarations.
-/

namespace LineCompiler

/-- The names declared so far. -/
structure Names where
  constants : List String := []
  vars : List String := []
  pointers : List String := []
  functions : List String := []
  deriving DecidableEq

/-- All the names of two collections, those of the first one in front. -/
def Names.append (first second : Names) : Names where
  constants := first.constants ++ second.constants
  vars := first.vars ++ second.vars
  pointers := first.pointers ++ second.pointers
  functions := first.functions ++ second.functions

end LineCompiler
