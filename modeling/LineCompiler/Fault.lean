import LineCompiler.Atom

/-!
# Why a run stops

A line of source is refused with a `Rejection`, which carries the line's number and has a notice for
the log.  A `Fault` is any reason for which a run stops: a rejection, a piece of the input that is
not there, a number that cannot be read, a file that cannot be used.
-/

namespace LineCompiler

/-- The refusal of a source line. -/
inductive Rejection where
  | missingSemicolon (line : Atom)
  | elseWithoutIf (line : Atom)
  | syscallNumber (line : Atom)
  | syscallArity (line : Atom)
  | conditionSpacing (line : Atom)
  | comparison (spelling : String) (line : Atom)
  deriving DecidableEq

/-- The mark that opens a notice of a refusal. -/
def errorMark : String := "[bold red][ERROR][reset]: "

/-- The mark that opens a notice for debugging. -/
def debugMark : String := "[bold blue][DEBUG][reset]"

/-- The mark that opens a notice of progress. -/
def infoMark : String := "[bold green][INFO][reset]: "

/-- The mark that opens a warning. -/
def warningMark : String := "[bold yellow][WARNING][reset]: "

/-- The notice of a refusal. -/
def Rejection.notice : Rejection → String
  | .missingSemicolon line =>
      errorMark ++ "Expected a semicolon at end of line '" ++ line.plain ++ "'"
  | .elseWithoutIf line =>
      errorMark ++ "Can't use else-condition without an if-condition in line '" ++
        line.plain ++ "'."
  | .syscallNumber line => errorMark ++ "Invalid syscall number, in line '" ++ line.plain ++ "'"
  | .syscallArity line =>
      errorMark ++ "syscall only supports up to 6 arguments (found 8), in line '" ++
        line.plain ++ "'."
  | .conditionSpacing line => errorMark ++ "Invalid syntax in line '" ++ line.plain ++ "'."
  | .comparison spelling line =>
      errorMark ++ "Invalid compare symbol '" ++ spelling ++ "' in line '" ++ line.plain ++ "'"

/-- A reason for which a run stops. -/
inductive Fault where
  /-- A source line is refused. -/
  | rejected (rejection : Rejection)
  /-- The run ends itself after it has told why. -/
  | stopped
  /-- A list has no item at the position asked for. -/
  | missingItem
  /-- A position that is too large to be asked for. -/
  | indexTooLarge
  /-- A value of the given sort is no position. -/
  | noIndex (sort : String)
  /-- A text has no character at the position asked for. -/
  | missingCharacter
  /-- A choice among nothing. -/
  | emptyChoice
  /-- A table has no entry under the key. -/
  | unknownKey (key : String)
  /-- A value of the given sort has no such field. -/
  | missingField (sort field : String)
  /-- A sort itself has no such field. -/
  | missingSortField (sort field : String)
  /-- A table of sorts has no entry for the sort. -/
  | unknownSort (sort : String)
  /-- A value of the given sort has no items to go through. -/
  | noItems (sort : String)
  /-- A value of the given sort has no entries under keys. -/
  | noEntries (sort : String)
  /-- A statement calls for an operation that does not exist. -/
  | missingOperation
  /-- Lines are expected, and there is no sequence of them. -/
  | notASequence
  /-- Lines are expected, and the item at the position is of another sort. -/
  | notAText (position : Nat) (sort : String)
  /-- A name that nothing defines. -/
  | undefinedName (name : String)
  | divisionByZero
  /-- A value of the given sort that nothing is divided by. -/
  | noDivisor (sort : String)
  | unknownSection (name : String)
  /-- A numeral that cannot be read, or an integer too long to be written. -/
  | malformedNumber
  /-- A number without a counterpart of the sort asked for. -/
  | numberTooLarge
  /-- A value of the given sort that is never read as an integer. -/
  | notAnInteger (sort : String)
  /-- A value of the given sort that is never read as a float. -/
  | notAFloat (sort : String)
  /-- Bytes that are not the encoding of a text. -/
  | undecodable
  /-- A path with a character that no path has. -/
  | malformedPath
  /-- A path, or a name in it, of too many bytes. -/
  | pathTooLong
  | fileNotFound
  | isADirectory
  | notADirectory
  | fileExists
  deriving DecidableEq

/-- The message of a fault, for the faults that have one. -/
def Fault.message? : Fault → Option String
  | .rejected _ | .stopped => some "1"
  | .missingItem => some "list index out of range"
  | .indexTooLarge => some "cannot fit 'int' into an index-sized integer"
  | .noIndex sort => some s!"list indices must be integers or slices, not {sort}"
  | .missingCharacter => some "string index out of range"
  | .emptyChoice => some "Cannot choose from an empty sequence"
  | .unknownKey key => some key
  | .missingField sort field => some s!"'{sort}' object has no attribute '{field}'"
  | .missingSortField sort field => some s!"type object '{sort}' has no attribute '{field}'"
  | .unknownSort sort => some s!"<class '{sort}'>"
  | .noItems sort => some s!"'{sort}' object is not iterable"
  | .noEntries "str" => some "string indices must be integers, not 'str'"
  | .noEntries "list" => some "list indices must be integers or slices, not str"
  | .noEntries sort => some s!"'{sort}' object is not subscriptable"
  | .missingOperation => some "'NoneType' object is not callable"
  | .notASequence => some "can only join an iterable"
  | .notAText position sort =>
      some s!"sequence item {position}: expected str instance, {sort} found"
  | .undefinedName name => some s!"name '{name}' is not defined"
  | .divisionByZero => some "division by zero"
  | .noDivisor sort => some s!"unsupported operand type(s) for /: 'int' and '{sort}'"
  | .unknownSection name => some s!"Unknown section: {name}"
  | .notAnInteger sort =>
      some s!"int() argument must be a string, a bytes-like object or a real number, not '{sort}'"
  | .notAFloat sort => some s!"float() argument must be a string or a real number, not '{sort}'"
  | .malformedNumber | .numberTooLarge | .undecodable => none
  | .malformedPath | .pathTooLong => none
  | .fileNotFound | .isADirectory | .notADirectory | .fileExists => none

/-- What a fault adds to the log: the notice of a refusal, and nothing else. -/
def Fault.notices : Fault → List String
  | .rejected rejection => [rejection.notice]
  | _ => []

end LineCompiler
