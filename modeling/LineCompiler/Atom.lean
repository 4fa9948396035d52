import LineCompiler.Number.Shortest
import LineCompiler.Text.Quoted

/-!
# Atoms

An atom is a bare value: what a token or a literal holds.  It has two texts.  `Atom.plain` is the
one that goes into messages and into assembly code; `Atom.display` shows the atom inside a larger
value, where a text stands between quotes.

Both texts write integers of any length.  The limit of `Number.maxDigits` on what is read and
written is left out here.  Numerals beyond it are refused (`Number.integer?`), so the tokens of a
source hold no such integer and the code for a source is not affected; only a program that is given
as a tree can hold one.  `Node.hasText` and `Number.integerText?` keep the limit.
-/

namespace LineCompiler

open Number

/-- A bare value. -/
inductive Atom where
  | text (content : String)
  | integer (value : Int)
  | float (value : Binary64)
  | truth (value : Bool)
  | absent
  deriving DecidableEq

namespace Atom

/-- The text of an atom in a message or in assembly code, without a limit on the digits of an
integer. -/
def plain : Atom → String
  | .text content => content
  | .integer value => integerText value
  | .float value => value.text
  | .truth value => if value then "True" else "False"
  | .absent => "None"

/-- The text of an atom inside a displayed value. -/
def display : Atom → String
  | .text content => Text.quoted content
  | atom => atom.plain

/-- The name of an atom's sort, as messages give it. -/
def sort : Atom → String
  | .text _ => "str"
  | .integer _ => "int"
  | .float _ => "float"
  | .truth _ => "bool"
  | .absent => "NoneType"

/-- A character sequence as an atom. -/
def ofChars (chars : List Char) : Atom :=
  .text (String.ofList chars)

end Atom

end LineCompiler
