import LineCompiler.Number.Decimal
import LineCompiler.Source.Comment
import LineCompiler.Token.Basic

/-!
# System calls

A system call is a number, up to six arguments and the variable for the error, separated by commas,
as in `syscall 1, 1, text, *length, error;`.  The number and the arguments may be numerals or names;
an argument with a star in front is dereferenced.
-/

namespace LineCompiler

namespace Syscall

open Text Number

/-- The greatest number of a system call. -/
def greatestNumber : Int := 456

/-- The most arguments that a system call takes. -/
def maxArguments : Nat := 6

/-- The token of the number of a system call. -/
def numberToken (line : Atom) (field : List Char) : Except Fault Token :=
  match integer? field with
  | none => .ok (.of .identifier (.ofChars (strip field)))
  | some number =>
      if greatestNumber < number then .error (.rejected (.syscallNumber line))
      else .ok (.of .number (.integer number))

/-- The token of an argument without its star. -/
def argumentToken (text : List Char) : Token :=
  match integer? text with
  | some number => .of .number (.integer number)
  | none =>
      match decimal? text with
      | some number =>
          if text.contains '.' then .of .float (.float number) else .of .string (.ofChars text)
      | none => .of .string (.ofChars text)

/-- The tokens of an argument. -/
def argumentTokens (field : List Char) : List Token :=
  match strip field with
  | '*' :: rest => [.of .dereference (.text "*"), argumentToken rest]
  | text => [argumentToken text]

/-- The tokens of the variable for the error and of the semicolon after it. -/
def errorTokens (field : List Char) : Except Fault (List Token) :=
  let text := strip field
  match text.getLast? with
  | none => .error .missingCharacter
  | some last =>
      if last = ';' then
        .ok [.of .identifier (.ofChars (strip text.dropLast)), .symbol .semicolon]
      else .ok [.of .identifier (.ofChars text)]

/-- The elements of the system call in the text after its keyword. -/
def elements (line : Atom) (text : List Char) : Except Fault (List Token) := do
  let fields := splitOn ',' (Source.stripComment text)
  let number ← numberToken line (fields.headD [])
  let arguments := (fields.drop 1).dropLast
  if maxArguments < arguments.length then throw (.rejected (.syscallArity line))
  let error ← errorTokens (fields.getLastD [])
  return number :: arguments.flatMap argumentTokens ++ error

/-- The elements of a system call on a line whose tokens so far are `before`: none, unless the line
opens with a system call. -/
def read (line : Atom) (before : List Token) (text : List Char) : Except Fault (List Token) := do
  if ← Token.opens Token.isSyscall before then elements line text else return []

end Syscall

end LineCompiler
