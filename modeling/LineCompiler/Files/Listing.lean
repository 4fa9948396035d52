import LineCompiler.Files.FileSystem

/-!
# Listings

The entries below a directory, and the paths of the files below one.  A path is shown without its
dots and double slashes, but two dots stay.
-/

namespace LineCompiler

namespace FileSystem

/-- The entries below a directory, by the names that lead there from it. -/
def below (files : FileSystem) (home : Location) : List (Location × Entry) :=
  files.entries.filterMap fun held =>
    if home.isPrefixOf held.1 ∧ held.1 ≠ home then some (held.1.drop home.length, held.2)
    else none

/-- The entries below a directory by their paths, in the order of the paths. -/
def tree (files : FileSystem) (home : Location) : List (String × Entry) :=
  ((files.below home).map fun held => ("/".intercalate held.1, held.2)).mergeSort
    fun first second => !decide (second.1 < first.1)

/-- The parts of a path that are shown. -/
def shownParts (path : String) : List String :=
  (pathParts path).filter fun part => part ≠ "" ∧ part ≠ "."

/-- The text of a path as it is shown; a path without parts is a single dot. -/
def shownPath (path : String) : String :=
  let root := if path.toList.head? = some '/' then "/" else ""
  let shown := root ++ "/".intercalate (shownParts path)
  if shown = "" then "." else shown

/-- The paths of the files below the directory that a path names, in order; none if it names none.
Only a path that is too long is refused. -/
def filesBelow (files : FileSystem) (home : Location) (path : String) :
    Except Fault (List String) :=
  let root := if path.toList.head? = some '/' then "/" else ""
  match files.locate home (shownPath path) with
  | .error .pathTooLong => .error .pathTooLong
  | .error _ => .ok []
  | .ok location =>
      if files.get? location = some .directory then
        .ok (((files.below location).filterMap fun held =>
          match held.2 with
          | .directory => none
          | .file _ => some (root ++ "/".intercalate (shownParts path ++ held.1))).mergeSort
          fun first second => !decide (second < first))
      else .ok []

end FileSystem

end LineCompiler
