import LineCompiler.Number.Binary64
import LineCompiler.Number.Integer

/-!
# Shortest decimal texts of floating-point numbers

A finite number is written with the fewest digits that read back as the same number, and among those
with the digits nearest to it.  The real numbers that read back as `mantissa * 2 ^ exponent` form an
interval around it, which holds its ends exactly when the mantissa is even.  For one digit, two
digits and so on, the two neighbours of the number on that decimal grid are tested against the
interval.
-/

namespace LineCompiler.Number

namespace Binary64

/-- A positive number with the interval of reals that read back as it, all in units of
`2 ^ (exponent - 2)`. -/
structure Interval where
  low : Nat
  value : Nat
  high : Nat
  closed : Bool
  exponent : Int

/-- The interval of a number.  Below a power of two the spacing is half as wide. -/
def interval (mantissa : Nat) (exponent : Int) : Interval where
  low :=
    if mantissa = Nat.pow 2 52 && leastExponent < exponent then 4 * mantissa - 1
      else 4 * mantissa - 2
  value := 4 * mantissa
  high := 4 * mantissa + 2
  closed := mantissa % 2 = 0
  exponent := exponent - 2

/-- The quotient `units * 2 ^ exponent / 10 ^ power` as a pair of natural numbers. -/
def Interval.onGrid (interval : Interval) (power : Int) (units : Nat) : Nat × Nat :=
  let binary := Nat.pow 2 interval.exponent.natAbs
  let decimal := Nat.pow 10 power.natAbs
  ((if interval.exponent < 0 then units else units * binary) *
      (if power < 0 then decimal else 1),
    (if interval.exponent < 0 then binary else 1) * (if power < 0 then 1 else decimal))

/-- Whether `digits * 10 ^ power` reads back as the number. -/
def Interval.holds (interval : Interval) (power : Int) (digits : Nat) : Bool :=
  let (low, lowUnit) := interval.onGrid power interval.low
  let (high, highUnit) := interval.onGrid power interval.high
  if interval.closed then low ≤ digits * lowUnit && digits * highUnit ≤ high
  else low < digits * lowUnit && digits * highUnit < high

/-- The multiple of `10 ^ power` nearest to the number among its two neighbours that read back as
it. -/
def Interval.candidate? (interval : Interval) (power : Int) : Option Nat :=
  let (value, unit) := interval.onGrid power interval.value
  let below := value / unit
  let remainder := value % unit
  match interval.holds power below, interval.holds power (below + 1) with
  | true, true =>
      if 2 * remainder < unit || (2 * remainder = unit && below % 2 = 0) then some below
      else some (below + 1)
  | true, false => some below
  | false, true => some (below + 1)
  | false, false => none

/-- The first grid, from `power` on in steps of one digit, that has a candidate. -/
def Interval.search (interval : Interval) : Nat → Int → Nat × Int
  | 0, power => (interval.value, power)
  | fuel + 1, power =>
      match interval.candidate? power with
      | some digits => (digits, power)
      | none => interval.search fuel (power - 1)

/-- The decimal exponent of a quotient: the greatest power of ten that does not exceed it. -/
def decimalExponent (numerator denominator : Nat) : Int :=
  if denominator ≤ numerator then ((Nat.toDigits 10 (numerator / denominator)).length : Int) - 1
  else
    -- The quotient `denominator / numerator`, rounded up, tells how far the first digit lies.
    let inverse := (denominator + numerator - 1) / numerator
    Int.negOfNat (Nat.toDigits 10 (inverse - 1)).length

/-- The shortest digits of a positive number, without zeros at the end, and the decimal exponent of
the first one. -/
def shortest (mantissa : Nat) (exponent : Int) : List Char × Int :=
  let interval := interval mantissa exponent
  let (numerator, denominator) := interval.onGrid 0 interval.value
  let (digits, power) := interval.search 20 (decimalExponent numerator denominator)
  let text := Nat.toDigits 10 digits
  ((text.reverse.dropWhile (· = '0')).reverse, power + text.length - 1)

/-- How the digits of a number are laid out. -/
structure Layout where
  /-- The least decimal exponent that is written without an exponent mark. -/
  positionalFrom : Int
  /-- The decimal exponents from here on are written with an exponent mark. -/
  positionalBelow : Int
  /-- The least number of digits of an exponent. -/
  exponentWidth : Nat

/-- Exponents from -4 to 15 are written positionally, and others with two digits at least. -/
def layout : Layout where
  positionalFrom := -4
  positionalBelow := 16
  exponentWidth := 2

/-- The exponent mark with the sign and the digits of an exponent. -/
def exponentText (layout : Layout) (exponent : Int) : List Char :=
  let digits := Nat.toDigits 10 exponent.natAbs
  'e' :: (if exponent < 0 then '-' else '+') ::
    (List.replicate (layout.exponentWidth - digits.length) '0' ++ digits)

/-- Digits laid out so that the first one stands at the given decimal exponent. -/
def digitsText (layout : Layout) (digits : List Char) (exponent : Int) : List Char :=
  if exponent < layout.positionalFrom || layout.positionalBelow ≤ exponent then
    match digits with
    | [] => []
    | first :: [] => first :: exponentText layout exponent
    | first :: rest => first :: '.' :: rest ++ exponentText layout exponent
  else if exponent < 0 then
    '0' :: '.' :: (List.replicate (exponent.natAbs - 1) '0' ++ digits)
  else
    let width := exponent.natAbs + 1
    let whole := digits.take width ++ List.replicate (width - digits.length) '0'
    let fraction := digits.drop width
    whole ++ '.' :: (if fraction.isEmpty then ['0'] else fraction)

/-- The text of a floating-point number. -/
def text : Binary64 → String
  | .notANumber => "nan"
  | .infinite negative => if negative then "-inf" else "inf"
  | .finite negative mantissa exponent =>
      let magnitude :=
        if mantissa = 0 then ['0', '.', '0']
        else
          let (digits, power) := shortest mantissa exponent
          digitsText layout digits power
      String.ofList (if negative then '-' :: magnitude else magnitude)

end Binary64

end LineCompiler.Number
