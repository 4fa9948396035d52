/-!
# Binary floating-point numbers of 64 bits

A finite number is a mantissa below `2 ^ 53` times a power of two, with the mantissa at least
`2 ^ 52` unless the exponent is the least one.  Quotients of natural numbers are rounded to the
nearest such number, and a tie goes to the even mantissa.
-/

namespace LineCompiler.Number

/-- A binary floating-point number of 64 bits. -/
inductive Binary64 where
  /-- The number `mantissa * 2 ^ exponent`, negated if `negative`. -/
  | finite (negative : Bool) (mantissa : Nat) (exponent : Int)
  | infinite (negative : Bool)
  | notANumber
  deriving DecidableEq

namespace Binary64

/-- The exponent of the smallest numbers. -/
def leastExponent : Int := -1074

/-- The exponent of the largest numbers. -/
def greatestExponent : Int := 971

/-- The quotient `numerator / (denominator * 2 ^ exponent)` as a pair of natural numbers. -/
def scaled (numerator denominator : Nat) (exponent : Int) : Nat × Nat :=
  if exponent < 0 then (numerator * Nat.pow 2 exponent.natAbs, denominator)
  else (numerator, denominator * Nat.pow 2 exponent.natAbs)

/-- The natural number nearest to a quotient; a tie goes to the even one. -/
def nearest (numerator denominator : Nat) : Nat :=
  let quotient := numerator / denominator
  let remainder := numerator % denominator
  if 2 * remainder < denominator then quotient
  else if denominator < 2 * remainder then quotient + 1
  else quotient + quotient % 2

/-- The exponent at which the quotient of two positive numbers is below `2 ^ 53`, and is at least
`2 ^ 52` unless the exponent is the least one. -/
def exponentFor (numerator denominator : Nat) : Int :=
  let guess := max leastExponent ((numerator.log2 : Int) - denominator.log2 - 53)
  let (above, below) := scaled numerator denominator guess
  if Nat.pow 2 53 ≤ above / below then guess + 1 else guess

/-- The number nearest to a quotient of natural numbers; beyond the largest number it is
infinite. -/
def ofQuotient (negative : Bool) (numerator denominator : Nat) : Binary64 :=
  if numerator = 0 then .finite negative 0 leastExponent
  else
    let exponent := exponentFor numerator denominator
    let (above, below) := scaled numerator denominator exponent
    let mantissa := nearest above below
    -- Rounding up may reach the next power of two.
    let (mantissa, exponent) :=
      if mantissa = Nat.pow 2 53 then (Nat.pow 2 52, exponent + 1) else (mantissa, exponent)
    if greatestExponent < exponent then .infinite negative
    else .finite negative mantissa exponent

/-- The number nearest to an integer, if that is finite. -/
def ofInt? (value : Int) : Option Binary64 :=
  match ofQuotient (value < 0) value.natAbs 1 with
  | .finite negative mantissa exponent => some (.finite negative mantissa exponent)
  | _ => none

/-- The integer part of a finite number. -/
def truncate? : Binary64 → Option Int
  | .finite negative mantissa exponent =>
      let magnitude :=
        if exponent < 0 then mantissa / Nat.pow 2 exponent.natAbs
        else mantissa * Nat.pow 2 exponent.natAbs
      some (if negative then -(magnitude : Int) else magnitude)
  | _ => none

end Binary64

end LineCompiler.Number
