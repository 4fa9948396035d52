import LineCompiler.Text.Blank
import LineCompiler.Text.Mark
import LineCompiler.Text.Split

/-!
# Comments

A comment starts at two slashes that stand outside double quotes and goes to the end of the line.  A
backslash takes away the meaning of a double quote after it, and of a backslash after it.
-/

namespace LineCompiler.Source

open Text

/-- The part of a line before its comment; `inString` and `escaped` say where the line is
entered. -/
def codeFrom (inString escaped : Bool) : List Char → List Char
  | [] => []
  | c :: rest =>
      if c = '\\' && !escaped then c :: codeFrom inString true rest
      else
        let inString := if c = doubleQuote && !escaped then !inString else inString
        if !inString && c = '/' && rest.head? = some '/' then []
        else c :: codeFrom inString false rest

/-- The characters removed at the end of a line. -/
def isLineTail (c : Char) : Bool :=
  c = ' ' || c = '\t' || c = '\r' || c = '\n'

/-- A line without its comment, its trailing blanks and its line ends, ended by one line feed. -/
def stripComment (line : List Char) : List Char :=
  trimEnd isLineTail (codeFrom false false line) ++ ['\n']

/-- A line cut before the character in front of its first two slashes, wherever those stand. -/
def cutComment (line : List Char) : List Char :=
  if contains ['/', '/'] line then (before ['/', '/'] line).dropLast else line

end LineCompiler.Source
