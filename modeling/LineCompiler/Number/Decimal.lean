import LineCompiler.Number.Binary64
import LineCompiler.Number.Integer

/-!
# Decimal numerals of floating-point numbers

A decimal numeral is a sign or none, digits with at most one point among them and at least one
digit, and an exponent or none; or a sign or none and one of the names for infinity and
not-a-number, in any case.  One underscore may stand between two digits, digits may be of any
script, and blanks may surround the numeral.  It means the floating-point number nearest to the
decimal number it spells.
-/

namespace LineCompiler.Number

open Text

/-- Digits of any script written as ASCII digits; other characters stay. -/
def asciiDigits (text : List Char) : List Char :=
  text.map fun c =>
    match digitValue? c with
    | some digit => digitChar digit
    | none => c

/-- Removes the underscores of a text of ASCII digits and other characters, if each stands between
two digits; `previous` is the character before the text. -/
def withoutUnderscores? (previous : Option Char) : List Char → Option (List Char)
  | [] => if previous = some '_' then none else some []
  | c :: rest =>
      if c = '_' then
        if previous.any Char.isDigit then withoutUnderscores? (some c) rest else none
      else if previous = some '_' && !c.isDigit then none
      else (withoutUnderscores? (some c) rest).map (c :: ·)

/-- The longest run of ASCII digits at the front of a text, as values, and what follows it. -/
def spanDigits (text : List Char) : List Nat × List Char :=
  ((text.takeWhile Char.isDigit).map fun c => c.toNat - 0x30, text.dropWhile Char.isDigit)

/-- The exponent that ends a numeral: nothing, or the mark `e`, a sign or none, and digits. -/
def exponentOf? : List Char → Option Int
  | [] => some 0
  | mark :: rest =>
      if mark.toLower ≠ 'e' then none
      else
        let (negative, unsigned) := splitSign rest
        let (digits, following) := spanDigits unsigned
        if digits.isEmpty || !following.isEmpty then none
        else if negative then some (-(ofDigits digits : Int))
        else some (ofDigits digits)

/-- The number nearest to `coefficient * 10 ^ exponent`, where the coefficient has `digits` digits.
Exponents far outside the range are settled without computing the power. -/
def ofDecimal (negative : Bool) (coefficient digits : Nat) (exponent : Int) : Binary64 :=
  if coefficient = 0 then .finite negative 0 Binary64.leastExponent
  else if 400 < exponent then .infinite negative
  else if exponent + digits < -400 then .finite negative 0 Binary64.leastExponent
  else if exponent < 0 then Binary64.ofQuotient negative coefficient (Nat.pow 10 exponent.natAbs)
  else Binary64.ofQuotient negative (coefficient * Nat.pow 10 exponent.natAbs) 1

/-- The number of an unsigned numeral with ASCII digits and without underscores. -/
def unsignedDecimal? (negative : Bool) (text : List Char) : Option Binary64 :=
  let (whole, afterWhole) := spanDigits text
  let (fraction, afterFraction) :=
    match afterWhole with
    | '.' :: rest => spanDigits rest
    | rest => ([], rest)
  if whole.isEmpty && fraction.isEmpty then none
  else
    (exponentOf? afterFraction).map fun exponent =>
      ofDecimal negative (ofDigits (whole ++ fraction)) (whole.length + fraction.length)
        (exponent - fraction.length)

/-- The number of a name: infinity or not-a-number, in any case. -/
def namedDecimal? (negative : Bool) (text : List Char) : Option Binary64 :=
  let name := String.ofList (text.map Char.toLower)
  if name = "inf" || name = "infinity" then some (.infinite negative)
  else if name = "nan" then some .notANumber
  else none

/-- The floating-point number that a decimal numeral means. -/
def decimal? (text : List Char) : Option Binary64 :=
  match withoutUnderscores? none (asciiDigits (trim isNumeralBlank text)) with
  | none => none
  | some plain =>
      let (negative, unsigned) := splitSign plain
      (namedDecimal? negative unsigned).or (unsignedDecimal? negative unsigned)

/-- Whether a text is a numeral with a point. -/
def isPointNumeral (text : List Char) : Bool :=
  (decimal? text).isSome && text.contains '.'

end LineCompiler.Number
