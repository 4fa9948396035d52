import LineCompiler.Fault
import LineCompiler.Text.Split

/-!
# File systems

A file system gives an entry to some locations.  A location is the list of names that lead to it
from the root, and the root is always a directory.

A path is a text whose parts are separated by slashes.  It is followed part by part, from the root
if it starts with a slash and from a given directory otherwise: an empty part and a single dot stay,
two dots go up, and any other part goes down.  Each part needs a directory to be followed in, and no
name has more than `nameLimit` bytes.  The text of a path is judged before it is followed: it has no
null character and at most `pathLimit` bytes.
-/

namespace LineCompiler

/-- What is at a location. -/
inductive Entry where
  | directory
  | file (content : List UInt8)
  deriving DecidableEq

/-- The names that lead from the root to a place. -/
abbrev Location := List String

/-- The text of a location. -/
def Location.text (location : Location) : String :=
  "/" ++ "/".intercalate location

/-- The place that a part of a path leads to. -/
def Location.step (here : Location) (part : String) : Location :=
  if part = "" ∨ part = "." then here
  else if part = ".." then here.dropLast
  else here ++ [part]

/-- The parts of a path. -/
def pathParts (path : String) : List String :=
  (Text.splitOn '/' path.toList).map String.ofList

/-- The greatest number of bytes in a name. -/
def nameLimit : Nat := 255

/-- The greatest number of bytes in the text of a path. -/
def pathLimit : Nat := 4095

/-- What is wrong with the text of a path, whatever the file system holds. -/
def pathFault? (path : String) : Option Fault :=
  if path.toList.contains '\x00' then some .malformedPath
  else if pathLimit < path.utf8ByteSize then some .pathTooLong
  else if path = "" then some .fileNotFound
  else none

/-- The entries below the root. -/
structure FileSystem where
  entries : List (Location × Entry) := []
  deriving DecidableEq

namespace FileSystem

/-- The entry at a location. -/
def get? (files : FileSystem) (location : Location) : Option Entry :=
  if location = [] then some .directory else files.entries.lookup location

/-- The file system with an entry at a location, instead of the one that was there. -/
def set (files : FileSystem) (location : Location) (entry : Entry) : FileSystem where
  entries := (location, entry) :: files.entries.filter fun held => held.1 ≠ location

theorem get?_set_self (files : FileSystem) {location : Location} (entry : Entry)
    (below : location ≠ []) : (files.set location entry).get? location = some entry := by
  simp [get?, set, below]

/-- Dropping the entries of one location leaves those of the others. -/
theorem lookup_filter_ne {location other : Location} (different : other ≠ location)
    (entries : List (Location × Entry)) :
    (entries.filter fun held => held.1 ≠ location).lookup other = entries.lookup other := by
  induction entries with
  | nil => rfl
  | cons held rest ih =>
      by_cases same : held.1 = location
      · have skip : (other == held.1) = false := by simpa [same] using different
        rw [List.filter_cons_of_neg (by simp [same]), List.lookup_cons, skip, ih]
      · rw [List.filter_cons_of_pos (by simp [same]), List.lookup_cons, List.lookup_cons, ih]

theorem get?_set_other (files : FileSystem) {location other : Location} (entry : Entry)
    (different : other ≠ location) : (files.set location entry).get? other = files.get? other := by
  have skip : (other == location) = false := by simpa using different
  simp only [get?, set, List.lookup_cons, skip, lookup_filter_ne different]

/-- Follows parts of a path.  The last place need not have an entry. -/
def follow (files : FileSystem) (here : Location) : List String → Except Fault Location
  | [] => .ok here
  | part :: rest =>
      match files.get? here with
      | none => .error .fileNotFound
      | some (.file _) => .error .notADirectory
      | some .directory =>
          if nameLimit < part.utf8ByteSize then .error .pathTooLong
          else files.follow (here.step part) rest

/-- The location that a path means, for someone in the directory `home`. -/
def locate (files : FileSystem) (home : Location) (path : String) : Except Fault Location :=
  match pathFault? path with
  | some fault => .error fault
  | none => files.follow (if path.toList.head? = some '/' then [] else home) (pathParts path)

/-- Whether a path leads to an entry. -/
def leads (files : FileSystem) (home : Location) (path : String) : Bool :=
  match files.locate home path with
  | .ok location => (files.get? location).isSome
  | .error _ => false

/-- The content of the file at a location. -/
def contentAt (files : FileSystem) (location : Location) : Except Fault (List UInt8) :=
  match files.get? location with
  | none => .error .fileNotFound
  | some .directory => .error .isADirectory
  | some (.file content) => .ok content

/-- Gives the file at a location a content, and makes the file if there is none. -/
def putContent (files : FileSystem) (location : Location) (content : List UInt8) :
    Except Fault FileSystem :=
  match files.get? location with
  | some .directory => .error .isADirectory
  | _ => .ok (files.set location (.file content))

/-- Makes an empty file at a location without an entry. -/
def touch (files : FileSystem) (location : Location) : Except Fault FileSystem :=
  match files.get? location with
  | some .directory => .error .isADirectory
  | some (.file _) => .ok files
  | none => .ok (files.set location (.file []))

/-- Makes a directory at a location without an entry. -/
def makeDirectory (files : FileSystem) (location : Location) : Except Fault FileSystem :=
  match files.get? location with
  | some _ => .error .fileExists
  | none => .ok (files.set location .directory)

/-- Makes the directories of a path that are not there yet. -/
def makeDirectories (files : FileSystem) (here : Location) : List String → Except Fault FileSystem
  | [] => .ok files
  | part :: rest => do
      let next ← files.follow here [part]
      match files.get? next with
      | some .directory => files.makeDirectories next rest
      | some (.file _) => throw .fileExists
      | none => (files.set next .directory).makeDirectories next rest

end FileSystem

end LineCompiler
