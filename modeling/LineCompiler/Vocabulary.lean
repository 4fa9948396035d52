import LineCompiler.Atom

/-!
# Vocabulary

The names of keywords, types, kinds of tokens, literals and symbols are numbered from one in a fixed
order.  Each table pairs numbers with labels or with spellings, in an order of its own; the table of
literal words goes from words to numbers.  A table can be read backwards: the first entry with a
given value answers.
-/

namespace LineCompiler.Vocabulary

/-- All names, in the order of their numbers. -/
def names : List String :=
  ["MUL_KEYWORD", "ADD_KEYWORD", "DIV_KEYWORD", "SUB_KEYWORD", "CONST_KEYWORD", "VAR_KEYWORD",
    "PTR_KEYWORD", "SIZE_INC_KEYWORD", "SIZE_DEC_KEYWORD", "EMT_KEYWORD", "DEL_KEYWORD",
    "INTO_KEYWORD", "SYSCALL_KEYWORD", "IF_KEYWORD", "ELSE_KEYWORD", "COMMENT_KEYWORD", "INT_TYPE",
    "FLOAT_TYPE", "STR_TYPE", "CHAR_TYPE", "BOOL_TRUE_TYPE", "BOOL_FALSE_TYPE", "KEYWORD_TOKEN",
    "WORD_TOKEN", "SYMBOL_TOKEN", "IDENTIFIER_TOKEN", "TYPE_TOKEN", "VALUE_TOKEN",
    "DEREFERENCE_PTR_TOKEN", "CONST_IDENTIFIER_TOKEN", "VAR_IDENTIFIER_TOKEN",
    "PTR_IDENTIFIER_TOKEN", "FUNCTION_IDENTIFIER_TOKEN", "EQUAL_TOKEN", "NOT_EQUAL_TOKEN",
    "GREATER_THAN_TOKEN", "SMALLER_THAN_TOKEN", "GREATER_THAN_OR_EQUAL_TOKEN",
    "SMALLER_THAN_OR_EQUAL_TOKEN", "COMMENT_TOKEN", "SIZE_LITERAL", "DYNAMIC_SIZE_LITERAL",
    "NUMBER_LITERAL", "FLOAT_LITERAL", "STRING_LITERAL", "BIN_LITERAL", "HEX_LITERAL",
    "TRUE_LITERAL", "FALSE_LITERAL", "NULL_LITERAL", "SPACE_LITERAL", "OP_RIGHT_ELEMENT_LITERAL",
    "OP_LEFT_ELEMENT_LITERAL", "UNINITIALIZED_VAR_LITERAL", "SEMICOLON_SYMBOL", "COLON_SYMBOL",
    "COMMA_SYMBOL", "DOT_SYMBOL", "LPAREN_SYMBOL", "RPAREN_SYMBOL", "LBRACE_SYMBOL",
    "RBRACE_SYMBOL", "LBRACKET_SYMBOL", "RBRACKET_SYMBOL", "PLUS_SYMBOL", "MINUS_SYMBOL",
    "ASTERISK_SYMBOL", "SLASH_SYMBOL", "PERCENT_SYMBOL", "AMPERSAND_SYMBOL", "PIPE_SYMBOL",
    "CARET_SYMBOL", "TILDE_SYMBOL", "EXCLAMATION_SYMBOL", "QUESTION_SYMBOL", "EQUALS_SYMBOL",
    "LESS_THAN_SYMBOL", "GREATER_THAN_SYMBOL", "DOUBLE_EQUALS_SYMBOL", "NOT_EQUALS_SYMBOL",
    "LESS_THAN_EQUALS_SYMBOL", "GREATER_THAN_EQUALS_SYMBOL", "PLUS_EQUALS_SYMBOL",
    "MINUS_EQUALS_SYMBOL", "ASTERISK_EQUALS_SYMBOL", "SLASH_EQUALS_SYMBOL",
    "PERCENT_EQUALS_SYMBOL", "AMPERSAND_EQUALS_SYMBOL", "PIPE_EQUALS_SYMBOL",
    "CARET_EQUALS_SYMBOL", "LEFT_SHIFT_SYMBOL", "RIGHT_SHIFT_SYMBOL", "LEFT_SHIFT_EQUALS_SYMBOL",
    "RIGHT_SHIFT_EQUALS_SYMBOL", "DOUBLE_PIPE_SYMBOL", "DOUBLE_AMPERSAND_SYMBOL",
    "DOUBLE_PLUS_SYMBOL", "DOUBLE_MINUS_SYMBOL", "ARROW_SYMBOL", "DOUBLE_ARROW_SYMBOL",
    "ELLIPSIS_SYMBOL", "HASHTAG_SYMBOL", "BACKSLASH_SYMBOL", "AT_SYMBOL", "DOLLAR_SYMBOL"]

/-- The number of a name. -/
def number (name : String) : Nat :=
  names.idxOf name + 1

/-- A table from keys to values, in order. -/
abbrev Table := List (Atom × Atom)

/-- The table that gives each name's number the name itself as label. -/
def ownLabels (names : List String) : Table :=
  names.map fun name => (.integer (number name), .text name)

/-- The table that gives each name's number a text. -/
def withTexts (entries : List (String × String)) : Table :=
  entries.map fun entry => (.integer (number entry.1), .text entry.2)

/-- Labels of the kinds of tokens. -/
def tokenLabels : Table :=
  ownLabels
    ["KEYWORD_TOKEN", "WORD_TOKEN", "SYMBOL_TOKEN", "IDENTIFIER_TOKEN", "TYPE_TOKEN", "VALUE_TOKEN",
      "DEREFERENCE_PTR_TOKEN", "CONST_IDENTIFIER_TOKEN", "VAR_IDENTIFIER_TOKEN",
      "PTR_IDENTIFIER_TOKEN", "FUNCTION_IDENTIFIER_TOKEN", "EQUAL_TOKEN", "NOT_EQUAL_TOKEN",
      "GREATER_THAN_TOKEN", "SMALLER_THAN_TOKEN", "GREATER_THAN_OR_EQUAL_TOKEN",
      "SMALLER_THAN_OR_EQUAL_TOKEN", "COMMENT_TOKEN"]

/-- Labels of the keywords. -/
def keywordLabels : Table :=
  ownLabels
    ["MUL_KEYWORD", "ADD_KEYWORD", "PTR_KEYWORD", "DIV_KEYWORD", "SUB_KEYWORD", "CONST_KEYWORD",
      "VAR_KEYWORD", "SIZE_INC_KEYWORD", "SIZE_DEC_KEYWORD", "EMT_KEYWORD", "DEL_KEYWORD",
      "INTO_KEYWORD", "SYSCALL_KEYWORD", "IF_KEYWORD", "ELSE_KEYWORD", "COMMENT_KEYWORD"]

/-- Spellings of the keywords. -/
def keywordSpellings : Table :=
  withTexts
    [("MUL_KEYWORD", "mul"), ("ADD_KEYWORD", "add"), ("DIV_KEYWORD", "div"), ("SUB_KEYWORD", "sub"),
      ("CONST_KEYWORD", "const"), ("VAR_KEYWORD", "var"), ("PTR_KEYWORD", "ptr"),
      ("SIZE_INC_KEYWORD", "size_inc"), ("SIZE_DEC_KEYWORD", "size_inc"), ("EMT_KEYWORD", "emt"),
      ("DEL_KEYWORD", "del"), ("INTO_KEYWORD", "into"), ("SYSCALL_KEYWORD", "syscall"),
      ("IF_KEYWORD", "if"), ("ELSE_KEYWORD", "else"), ("COMMENT_KEYWORD", "//")]

/-- Labels of the types. -/
def typeLabels : Table :=
  ownLabels
    ["INT_TYPE", "FLOAT_TYPE", "STR_TYPE", "CHAR_TYPE"]

/-- Spellings of the types. -/
def typeSpellings : Table :=
  withTexts
    [("INT_TYPE", "int"), ("FLOAT_TYPE", "float"), ("STR_TYPE", "str"), ("CHAR_TYPE", "char")]

/-- Labels of the literals. -/
def literalLabels : Table :=
  withTexts
    [("SIZE_LITERAL", "SIZE_LITERAL"), ("DYNAMIC_SIZE_LITERAL", "DYNAMIC_SIZE_LITERAL"),
      ("NUMBER_LITERAL", "NUMBER_LITERAL"), ("FLOAT_LITERAL", "FLOAT_LITERAL"),
      ("STRING_LITERAL", "STR_LITERAL"), ("BIN_LITERAL", "BIN_LITERAL"),
      ("HEX_LITERAL", "HEX_LITERAL"), ("TRUE_LITERAL", "TRUE_LITERAL"),
      ("FALSE_LITERAL", "FALSE_LITERAL"), ("OP_LEFT_ELEMENT_LITERAL", "OP_LEFT_ELEMENT_LITERAL"),
      ("OP_RIGHT_ELEMENT_LITERAL", "OP_RIGHT_ELEMENT_LITERAL"),
      ("UNINITIALIZED_VAR_LITERAL", "UNINITIALIZED_VAR_LITERAL"),
      ("SPACE_LITERAL", "SPACE_LITERAL")]

/-- Numbers of the literal words. -/
def literalWords : Table :=
  [("TRUE", "TRUE_LITERAL"), ("FALSE", "FALSE_LITERAL"), ("NULL", "NULL_LITERAL"),
    (" ", "SPACE_LITERAL")].map fun entry => (.text entry.1, .integer (number entry.2))

/-- Labels of the symbols. -/
def symbolLabels : Table :=
  ownLabels
    ["SEMICOLON_SYMBOL", "COLON_SYMBOL", "COMMA_SYMBOL", "DOT_SYMBOL", "LPAREN_SYMBOL",
      "RPAREN_SYMBOL", "LBRACE_SYMBOL", "RBRACE_SYMBOL", "LBRACKET_SYMBOL", "RBRACKET_SYMBOL",
      "PLUS_SYMBOL", "MINUS_SYMBOL", "ASTERISK_SYMBOL", "SLASH_SYMBOL", "PERCENT_SYMBOL",
      "AMPERSAND_SYMBOL", "PIPE_SYMBOL", "CARET_SYMBOL", "TILDE_SYMBOL", "EXCLAMATION_SYMBOL",
      "QUESTION_SYMBOL", "EQUALS_SYMBOL", "LESS_THAN_SYMBOL", "GREATER_THAN_SYMBOL",
      "DOUBLE_EQUALS_SYMBOL", "NOT_EQUALS_SYMBOL", "LESS_THAN_EQUALS_SYMBOL",
      "GREATER_THAN_EQUALS_SYMBOL", "PLUS_EQUALS_SYMBOL", "MINUS_EQUALS_SYMBOL",
      "ASTERISK_EQUALS_SYMBOL", "SLASH_EQUALS_SYMBOL", "PERCENT_EQUALS_SYMBOL",
      "AMPERSAND_EQUALS_SYMBOL", "PIPE_EQUALS_SYMBOL", "CARET_EQUALS_SYMBOL", "LEFT_SHIFT_SYMBOL",
      "RIGHT_SHIFT_SYMBOL", "LEFT_SHIFT_EQUALS_SYMBOL", "RIGHT_SHIFT_EQUALS_SYMBOL",
      "DOUBLE_PIPE_SYMBOL", "DOUBLE_AMPERSAND_SYMBOL", "DOUBLE_PLUS_SYMBOL", "DOUBLE_MINUS_SYMBOL",
      "ARROW_SYMBOL", "DOUBLE_ARROW_SYMBOL", "ELLIPSIS_SYMBOL", "HASHTAG_SYMBOL",
      "BACKSLASH_SYMBOL",
      "AT_SYMBOL", "DOLLAR_SYMBOL"]

/-- Spellings of the symbols. -/
def symbolSpellings : Table :=
  withTexts
    [("SEMICOLON_SYMBOL", ";"), ("COLON_SYMBOL", ":"), ("COMMA_SYMBOL", ","), ("DOT_SYMBOL", "."),
      ("LPAREN_SYMBOL", "("), ("RPAREN_SYMBOL", ")"), ("LBRACE_SYMBOL", "\x7b"),
      ("RBRACE_SYMBOL", "\x7d"), ("LBRACKET_SYMBOL", "["), ("RBRACKET_SYMBOL", "]"),
      ("PLUS_SYMBOL", "+"), ("MINUS_SYMBOL", "-"), ("ASTERISK_SYMBOL", "*"), ("SLASH_SYMBOL", "/"),
      ("PERCENT_SYMBOL", "%"), ("AMPERSAND_SYMBOL", "&"), ("PIPE_SYMBOL", "|"),
      ("CARET_SYMBOL", "^"), ("TILDE_SYMBOL", "~"), ("EXCLAMATION_SYMBOL", "!"),
      ("QUESTION_SYMBOL", "?"), ("EQUALS_SYMBOL", "="), ("LESS_THAN_SYMBOL", "<"),
      ("GREATER_THAN_SYMBOL", ">"), ("DOUBLE_EQUALS_SYMBOL", "=="), ("NOT_EQUALS_SYMBOL", "!="),
      ("LESS_THAN_EQUALS_SYMBOL", "<="), ("GREATER_THAN_EQUALS_SYMBOL", ">="),
      ("PLUS_EQUALS_SYMBOL", "+="), ("MINUS_EQUALS_SYMBOL", "-="), ("ASTERISK_EQUALS_SYMBOL", "*="),
      ("SLASH_EQUALS_SYMBOL", "/="), ("PERCENT_EQUALS_SYMBOL", "%="),
      ("AMPERSAND_EQUALS_SYMBOL", "&="), ("PIPE_EQUALS_SYMBOL", "|="),
      ("CARET_EQUALS_SYMBOL", "^="),
      ("LEFT_SHIFT_SYMBOL", "<<"), ("RIGHT_SHIFT_SYMBOL", ">>"),
      ("LEFT_SHIFT_EQUALS_SYMBOL", "<<="),
      ("RIGHT_SHIFT_EQUALS_SYMBOL", ">>="), ("DOUBLE_PIPE_SYMBOL", "||"),
      ("DOUBLE_AMPERSAND_SYMBOL", "&&"), ("DOUBLE_PLUS_SYMBOL", "++"),
      ("DOUBLE_MINUS_SYMBOL", "--"),
      ("ARROW_SYMBOL", "->"), ("DOUBLE_ARROW_SYMBOL", "=>"), ("ELLIPSIS_SYMBOL", "..."),
      ("HASHTAG_SYMBOL", "#"), ("BACKSLASH_SYMBOL", "\\"), ("AT_SYMBOL", "@"),
      ("DOLLAR_SYMBOL", "$")]

/-- All names with their numbers, in the order of the names. -/
def numbers : Table :=
  (names.mergeSort fun first second => !decide (second < first)).map fun name =>
    (.text name, .integer (number name))

/-- Whether two atoms are the same value: numbers are compared as numbers, whatever their sort. -/
def sameValue (first second : Atom) : Bool :=
  match numeric first, numeric second with
  | some one, some other => one = other
  | none, none => first = second
  | _, _ => false
where
  numeric : Atom → Option Number.Binary64
    | .integer value => Number.Binary64.ofInt? value
    | .truth value => Number.Binary64.ofInt? (if value then 1 else 0)
    | .float value => some value
    | _ => none

/-- The key of the first entry with the given value. -/
def keyOf? (table : Table) (value : Atom) : Option Atom :=
  (table.find? fun entry => sameValue value entry.2).map Prod.fst

end LineCompiler.Vocabulary
