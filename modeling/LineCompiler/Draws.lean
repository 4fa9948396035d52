import LineCompiler.Fault

/-!
# Draws

Choices are made by a stream of numbers.  A draw takes the next number of the stream; choosing among
`n` things takes the remainder of the draw by `n`.
-/

namespace LineCompiler

/-- A stream of numbers of which the first `taken` have been used. -/
structure Draws where
  stream : Nat → Int
  taken : Nat := 0

namespace Draws

/-- The stream that starts with the given numbers and goes on with the position of each draw. -/
def ofList (numbers : List Int) : Draws where
  stream position := numbers.getD position position

/-- The next number. -/
def next (draws : Draws) : Int :=
  draws.stream draws.taken

/-- The stream after `count` further draws. -/
def skip (draws : Draws) (count : Nat) : Draws :=
  { draws with taken := draws.taken + count }

@[simp] theorem skip_stream (draws : Draws) (count : Nat) :
    (draws.skip count).stream = draws.stream := rfl

@[simp] theorem skip_taken (draws : Draws) (count : Nat) :
    (draws.skip count).taken = draws.taken + count := rfl

/-- The next number, brought below `bound`. -/
def below (draws : Draws) (bound : Nat) : Nat :=
  (draws.next % bound).toNat

/-- The integer from `low` up to and without `high` that the next number chooses. -/
def integerIn (draws : Draws) (low high : Int) : Except Fault Int :=
  if high ≤ low then .error .emptyChoice
  else .ok (low + draws.below (high - low).toNat)

/-- Chooses an integer from `low` up to and without `high`.  A choice among none takes no number. -/
def chooseInteger (draws : Draws) (low high : Int) : Except Fault Int × Draws :=
  (draws.integerIn low high, if high ≤ low then draws else draws.skip 1)

/-- The least number of a label. -/
def firstLabel : Nat := 999

/-- How many numbers a label can have. -/
def labelCount : Nat := 9000

/-- The number of a label. -/
def label (draws : Draws) : Nat :=
  firstLabel + draws.below labelCount

/-- The letters that texts are drawn from. -/
def letters : List Char :=
  "abcdefghijklmnopqrstuvwxyzABCDEFGHIJKLMNOPQRSTUVWXYZ".toList

/-- The text of the given length that the next numbers choose, one for each letter. -/
def word (draws : Draws) : Nat → List Char
  | 0 => []
  | length + 1 =>
      letters.getD (draws.below letters.length) 'a' :: (draws.skip 1).word length

/-- Chooses the number of a label. -/
def chooseLabel (draws : Draws) : Nat × Draws :=
  (draws.label, draws.skip 1)

/-- Chooses a text of the given length; a negative length counts as none. -/
def chooseWord (draws : Draws) (length : Int) : List Char × Draws :=
  (draws.word length.toNat, draws.skip length.toNat)

end Draws

end LineCompiler
