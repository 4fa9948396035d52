/-!
# Punctuation with a meaning of its own

Names for the characters that delimit texts and blocks.
-/

namespace LineCompiler.Text

/-- Opens a block. -/
def openBrace : Char := '\x7b'

/-- Closes a block. -/
def closeBrace : Char := '\x7d'

/-- Delimits texts. -/
def singleQuote : Char := '\x27'

/-- Delimits texts. -/
def doubleQuote : Char := '\x22'

end LineCompiler.Text
