import LineCompiler.Text.Mark
import LineCompiler.Text.Printable

/-!
# Quoted texts

A text is shown between single quotes, or between double quotes when it has a single quote and no
double quote.  The quote and the backslash are escaped, tab, line feed and carriage return have
letters, and every other unprintable character is shown by its code point in two, four or eight
hexadecimal digits.
-/

namespace LineCompiler.Text

/-- The lower-case hexadecimal digits of `value`, padded with zeros to `width` digits. -/
def hexadecimal (width value : Nat) : List Char :=
  let digits := Nat.toDigits 16 value
  List.replicate (width - digits.length) '0' ++ digits

/-- The escape of an unprintable character by its code point. -/
def escapeCode (c : Char) : List Char :=
  if c.toNat < 0x100 then '\\' :: 'x' :: hexadecimal 2 c.toNat
  else if c.toNat < 0x10000 then '\\' :: 'u' :: hexadecimal 4 c.toNat
  else '\\' :: 'U' :: hexadecimal 8 c.toNat

/-- How one character of a text is shown between quotes of the given kind. -/
def quoteChar (quote c : Char) : List Char :=
  if c = quote || c = '\\' then ['\\', c]
  else if c = '\t' then ['\\', 't']
  else if c = '\n' then ['\\', 'n']
  else if c = '\r' then ['\\', 'r']
  else if isPrintable c then [c]
  else escapeCode c

/-- The quote for a text: single, unless only the double quote saves an escape. -/
def quoteFor (text : List Char) : Char :=
  if text.contains singleQuote && !text.contains doubleQuote then doubleQuote else singleQuote

/-- A text between quotes, with what cannot stand there escaped. -/
def quoted (text : String) : String :=
  let quote := quoteFor text.toList
  String.ofList (quote :: text.toList.flatMap (quoteChar quote) ++ [quote])

end LineCompiler.Text
