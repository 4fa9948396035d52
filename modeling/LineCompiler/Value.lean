import LineCompiler.Number.Decimal
import LineCompiler.Program.Outline

/-!
# Values

What a node can be read as: an integer, a float, or a value of one of the scalar types, which are
known by their labels.  Only bare values are read as numbers.
-/

namespace LineCompiler

open Number

namespace Node

/-! ## Numbers -/

/-- A value as an integer: a numeral is read, and a float loses its fraction. -/
def toInteger : Node → Except Fault Int
  | .bare (.text content) =>
      match integer? content.toList with
      | some value => .ok value
      | none => .error .malformedNumber
  | .bare (.integer value) => .ok value
  | .bare (.truth value) => .ok (if value then 1 else 0)
  | .bare (.float .notANumber) => .error .malformedNumber
  | .bare (.float value) =>
      match value.truncate? with
      | some value => .ok value
      | none => .error .numberTooLarge
  | value => .error (.notAnInteger value.sort)

/-- A value as a float. -/
def toFloat : Node → Except Fault Binary64
  | .bare (.text content) =>
      match decimal? content.toList with
      | some value => .ok value
      | none => .error .malformedNumber
  | .bare (.integer value) =>
      match Binary64.ofInt? value with
      | some value => .ok value
      | none => .error .numberTooLarge
  | .bare (.truth value) => .ok (.ofQuotient false (if value then 1 else 0) 1)
  | .bare (.float value) => .ok value
  | value => .error (.notAFloat value.sort)

/-- Whether a value can be read as an integer. -/
def isInteger (value : Node) : Bool :=
  value.toInteger.isOk

/-- Whether a value is a float: its text has a point and can be read as a number. -/
def isFloat : Node → Bool
  | .bare (.text content) => isPointNumeral content.toList
  | .bare (.float value) => value.text.toList.contains '.'
  | _ => false

/-- Whether a value has a text: an integer in it that is too long has none. -/
def hasText (value : Node) : Bool :=
  (value.outline .display).hasText

/-- Whether the text of a value is a single character. -/
def isSingle : Node → Bool
  | .bare value => (Node.bare value).hasText && value.plain.length = 1
  | _ => false

/-! ## Scalar types -/

/-- The scalar type that a label means. -/
def typeOfLabel? : Node → Option TypeName
  | .bare (.text "INT_TYPE") => some .int
  | .bare (.text "FLOAT_TYPE") => some .float
  | .bare (.text "STR_TYPE") => some .str
  | .bare (.text "CHAR_TYPE") => some .char
  | _ => none

/-- Whether a value can be taken for one of a type; no answer for a label that means no type. -/
def fits? (label value : Node) : Option Bool :=
  match typeOfLabel? label with
  | some .int => some value.isInteger
  | some .float => some value.toFloat.isOk
  | some .str => some value.hasText
  | some .char => some value.isSingle
  | _ => none

/-- A value as one of a type.  Only numbers come out; a text has to exist, but is not given back. -/
def convert (value label : Node) : Except Fault Atom :=
  match typeOfLabel? label with
  | some .int => value.toInteger.map Atom.integer
  | some .float => value.toFloat.map Atom.float
  | some .str | some .char => if value.hasText then .ok .absent else .error .malformedNumber
  | _ => .ok .absent

/-- The sort of literal that a value is written as. -/
def literalKind? : Node → Option LiteralKind
  | .bare (.text _) => some .string
  | .bare (.integer _) | .bare (.truth _) => some .number
  | .bare (.float _) => some .float
  | _ => none

/-! ## Texts -/

/-- Whether a character is among those to be ignored; no answer if there is no collection to look
in. -/
def ignores? (ignored : Node) (c : Char) : Option Bool :=
  match ignored with
  | .bare (.text content) => some (content.toList.contains c)
  | .list items => some (items.any (isCharacter c))
  | .table keys _ => some (keys.contains (String.singleton c))
  | _ => none
where
  /-- Whether a value is the text of one character. -/
  isCharacter (c : Char) : Node → Bool
    | .bare (.text content) => content = String.singleton c
    | _ => false

/-- Whether a text has a character that is neither a digit nor ignored.  Without a collection of
characters to ignore, every character counts. -/
def hasNonDigit (ignored : Node) (text : String) : Bool :=
  text.toList.any fun c =>
    match ignores? ignored c with
    | none => true
    | some isIgnored => !isIgnored && !Text.isDigit c

/-- A text without the spaces around it. -/
def trimSpaces (text : String) : String :=
  String.ofList (Text.trim (· = ' ') text.toList)

/-! ## Sizes -/

/-- The size of a value.  A value that was met before counts nothing; the parts of a compound value
cannot be measured; the sizes of other values are not known here. -/
def size? (met : Bool) (value : Node) : Except Fault (Option Nat) :=
  if met then .ok (some 0)
  else
    match value with
    | .list (_ :: _) | .table (_ :: _) _ => .error (.undefinedName "deep_getsizeof")
    | _ => .ok none

end Node

end LineCompiler
