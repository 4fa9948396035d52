/-!
# Blank characters

A blank is a character that trimming removes: the white space of Unicode together with the separator
controls `U+001C` to `U+001F`.  Around a numeral the separator controls do not count as blank, so
there are two classes, and `trim` takes the class as a parameter.
-/

namespace LineCompiler.Text

/-- Whether the code point of `c` lies in one of the closed ranges. -/
def inRanges (ranges : List (Nat × Nat)) (c : Char) : Bool :=
  ranges.any fun range => range.1 ≤ c.toNat && c.toNat ≤ range.2

/-- The code points of blank characters, in increasing order. -/
def blankRanges : List (Nat × Nat) :=
  [(0x9, 0xD), (0x1C, 0x20), (0x85, 0x85), (0xA0, 0xA0), (0x1680, 0x1680), (0x2000, 0x200A),
    (0x2028, 0x2029), (0x202F, 0x202F), (0x205F, 0x205F), (0x3000, 0x3000)]

/-- Characters that trimming removes at both ends of a text. -/
def isBlank (c : Char) : Bool :=
  inRanges blankRanges c

/-- Blanks that may stand around a numeral: every blank but the separator controls. -/
def isNumeralBlank (c : Char) : Bool :=
  isBlank c && !(0x1C ≤ c.toNat && c.toNat ≤ 0x1F)

/-- Drops the characters of class `p` at the end of a text. -/
def trimEnd (p : Char → Bool) (text : List Char) : List Char :=
  (text.reverse.dropWhile p).reverse

/-- Drops the characters of class `p` at both ends of a text. -/
def trim (p : Char → Bool) (text : List Char) : List Char :=
  trimEnd p (text.dropWhile p)

/-- Drops the blanks at both ends of a text. -/
def strip (text : List Char) : List Char :=
  trim isBlank text

end LineCompiler.Text
