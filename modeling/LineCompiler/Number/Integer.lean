import LineCompiler.Text.Blank
import LineCompiler.Text.Digit

/-!
# Integer numerals

A numeral has a sign or none and then decimal digits of any script, where one underscore may stand
between two digits; blanks may surround it.  A numeral of more than `maxDigits` digits is refused,
and so is the writing of an integer that needs more.
-/

namespace LineCompiler.Number

open Text

/-- The most digits that a numeral may have. -/
def maxDigits : Nat := 4300

/-- The digits of a text of digits with single underscores between them; `afterDigit` says whether a
digit stands just before the text. -/
def digitsOf? (afterDigit : Bool) : List Char → Option (List Nat)
  | [] => if afterDigit then some [] else none
  | c :: rest =>
      if c = '_' then
        if afterDigit then digitsOf? false rest else none
      else
        match digitValue? c with
        | some digit => (digitsOf? true rest).map (digit :: ·)
        | none => none

/-- The number that a sequence of digits spells. -/
def ofDigits (digits : List Nat) : Nat :=
  digits.foldl (fun value digit => 10 * value + digit) 0

/-- The sign at the front of a text (`true` for minus) and what follows it. -/
def splitSign : List Char → Bool × List Char
  | '-' :: rest => (true, rest)
  | '+' :: rest => (false, rest)
  | text => (false, text)

/-- The integer that a numeral spells, if the text is a numeral of at most `maxDigits` digits. -/
def integer? (text : List Char) : Option Int :=
  let (negative, unsigned) := splitSign (trim isNumeralBlank text)
  match digitsOf? false unsigned with
  | none => none
  | some digits =>
      if maxDigits < digits.length then none
      else if negative then some (-(ofDigits digits : Int))
      else some (ofDigits digits)

/-- The decimal numeral of an integer of any length. -/
def integerText (value : Int) : String :=
  if value < 0 then "-" ++ Nat.repr value.natAbs else Nat.repr value.natAbs

/-- The decimal numeral of an integer, unless it needs more than `maxDigits` digits. -/
def integerText? (value : Int) : Option String :=
  if Nat.pow 10 maxDigits ≤ value.natAbs then none else some (integerText value)

end LineCompiler.Number
