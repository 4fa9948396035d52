/-!
# Splitting, searching and cutting texts

Texts are lists of characters.  `splitOn` cuts at every occurrence of one character and always gives
at least one piece; joining the pieces with that character gives the text back.
-/

namespace LineCompiler.Text

/-- The pieces of a text between the occurrences of `separator`; never empty. -/
def splitOn (separator : Char) : List Char → List (List Char)
  | [] => [[]]
  | c :: rest =>
      if c = separator then [] :: splitOn separator rest
      else
        match splitOn separator rest with
        | [] => [[c]]
        | piece :: pieces => (c :: piece) :: pieces

/-- Whether `pattern` occurs in a text. -/
def contains (pattern : List Char) : List Char → Bool
  | [] => pattern.isEmpty
  | c :: rest => pattern.isPrefixOf (c :: rest) || contains pattern rest

/-- The part of a text before the first occurrence of `pattern`, or the whole text. -/
def before (pattern : List Char) : List Char → List Char
  | [] => []
  | c :: rest => if pattern.isPrefixOf (c :: rest) then [] else c :: before pattern rest

/-- The position that an index means in a sequence of the given length: a negative index counts from
the end, and what lies outside is clamped. -/
def clampIndex (length : Nat) (index : Int) : Nat :=
  if index < 0 then (length + index).toNat else min index.toNat length

/-- The part of a sequence from an index on, where a negative index counts from the end. -/
def dropTo {α : Type} (index : Int) (items : List α) : List α :=
  items.drop (clampIndex items.length index)

/-- The item at an index, where a negative index counts from the end. -/
def itemAt? {α : Type} (items : List α) (index : Int) : Option α :=
  if index < 0 then
    if items.length + index < 0 then none else items[(items.length + index).toNat]?
  else items[index.toNat]?

theorem splitOn_ne_nil (separator : Char) (text : List Char) : splitOn separator text ≠ [] := by
  cases text with
  | nil => simp [splitOn]
  | cons c rest =>
      rw [splitOn]
      split
      · simp
      · split <;> simp

end LineCompiler.Text
