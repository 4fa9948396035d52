import LineCompiler.Text.Digit
import LineCompiler.Token.Basic

/-!
# Arithmetic operations

An operation reads as in `mul (a, b) into c;`.  The line is cut at its spaces, and each piece is
judged by its ends and by the piece before it; the piece before the first one is the last one.
-/

namespace LineCompiler

namespace Operation

open Text

/-- The words that open an operation. -/
def openers : List (List Char) :=
  [['m', 'u', 'l'], ['a', 'd', 'd'], ['d', 'i', 'v'], ['s', 'u', 'b']]

/-- The word in front of the result. -/
def resultWord : List Char := ['i', 'n', 't', 'o']

/-- The token of an operand: a number if it has digits only, else a name. -/
def operandToken (text : List Char) : Token :=
  .of (if text.all isDigit then .operand else .identifier) (.ofChars text)

/-- The tokens of one piece of the line. -/
def pieceTokens (previous piece : List Char) : List Token :=
  (if piece.head? = some '(' then [operandToken (piece.drop 1).dropLast] else []) ++
    (if piece.getLast? = some ')' then [operandToken piece.dropLast] else []) ++
    (if piece = resultWord then [.of (.mark .into) (.ofChars resultWord)] else []) ++
    (if previous = resultWord && [';', '\n'].isSuffixOf piece then
      [.of .identifier (.ofChars piece.dropLast.dropLast), .symbol .semicolon] else [])

/-- The tokens of the pieces after `previous`; five tokens are enough. -/
def readPieces (previous : List Char) (elements : List Token) : List (List Char) → List Token
  | [] => elements
  | piece :: rest =>
      if openers.contains piece then readPieces piece elements rest
      else
        let after := elements ++ pieceTokens previous piece
        if after.length = 5 then after else readPieces piece after rest

/-- The elements of an operation in a whole line. -/
def elements (line : List Char) : List Token :=
  let pieces := splitOn ' ' line
  readPieces (pieces.getLastD []) [] pieces

/-- The elements of an operation on a line whose tokens so far are `before`: none, unless the line
opens with an operation. -/
def read (before : List Token) (line : List Char) : Except Fault (List Token) :=
  (Token.opens Token.isOperation before).map fun opens => if opens then elements line else []

/-- The positions of a line of the given length that an operation after `index` takes up. -/
def positions (index : Int) (length : Nat) : List Int :=
  (List.range (length - (index + 1)).toNat).map fun (offset : Nat) => index + 1 + offset

/-- The elements of an operation after `index` and the positions that it takes up; nothing on a line
that has no tokens so far. -/
def readAt? (before : List Token) (index : Int) (line : List Char) :
    Except Fault (Option (List Token × List Int)) :=
  if before.isEmpty then .ok none
  else (read before line).map fun elements => some (elements, positions index line.length)

end Operation

end LineCompiler
