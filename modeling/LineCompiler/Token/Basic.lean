import LineCompiler.Atom
import LineCompiler.Fault
import LineCompiler.Text.Split

/-!
# Tokens

A token is a kind together with a value.  The kinds have labels, by which tokens are shown and read
back; a label that is not among the known ones is a kind of its own.  A keyword or a symbol token
has the label of its keyword or symbol as value.

A `blank` token has neither kind nor value.  The scanners never make one; every reader that looks
into a blank token stops with a fault.
-/

namespace LineCompiler

/-- The words and marks of the language with a meaning of their own. -/
inductive Keyword where
  | mul | add | div | sub
  | const | var | ptr
  | sizeInc | sizeDec | emt | del
  | into | syscall
  | cond | alt
  | comment
  deriving DecidableEq

/-- The label of a keyword in tokens. -/
def Keyword.label : Keyword → String
  | .mul => "MUL_KEYWORD"
  | .add => "ADD_KEYWORD"
  | .div => "DIV_KEYWORD"
  | .sub => "SUB_KEYWORD"
  | .const => "CONST_KEYWORD"
  | .var => "VAR_KEYWORD"
  | .ptr => "PTR_KEYWORD"
  | .sizeInc => "SIZE_INC_KEYWORD"
  | .sizeDec => "SIZE_DEC_KEYWORD"
  | .emt => "EMT_KEYWORD"
  | .del => "DEL_KEYWORD"
  | .into => "INTO_KEYWORD"
  | .syscall => "SYSCALL_KEYWORD"
  | .cond => "IF_KEYWORD"
  | .alt => "ELSE_KEYWORD"
  | .comment => "COMMENT_KEYWORD"

/-- The keyword that a word of a line is. -/
def Keyword.ofWord? (word : List Char) : Option Keyword :=
  match word with
  | ['c', 'o', 'n', 's', 't'] => some .const
  | ['v', 'a', 'r'] => some .var
  | ['p', 't', 'r'] => some .ptr
  | ['s', 'i', 'z', 'e', '_', 'i', 'n', 'c'] => some .sizeInc
  | ['s', 'i', 'z', 'e', '_', 'd', 'e', 'c'] => some .sizeDec
  | ['e', 'm', 't'] => some .emt
  | ['d', 'e', 'l'] => some .del
  | ['m', 'u', 'l'] => some .mul
  | ['a', 'd', 'd'] => some .add
  | ['s', 'u', 'b'] => some .sub
  | ['d', 'i', 'v'] => some .div
  | ['s', 'y', 's', 'c', 'a', 'l', 'l'] => some .syscall
  | ['i', 'f'] => some .cond
  | ['e', 'l', 's', 'e'] => some .alt
  | _ => none

/-- The symbols that scanners make tokens of. -/
inductive Symbol where
  | semicolon | openParen | closeParen | openBrace | closeBrace
  deriving DecidableEq

/-- The label of a symbol in tokens. -/
def Symbol.label : Symbol → String
  | .semicolon => "SEMICOLON_SYMBOL"
  | .openParen => "LPAREN_SYMBOL"
  | .closeParen => "RPAREN_SYMBOL"
  | .openBrace => "LBRACE_SYMBOL"
  | .closeBrace => "RBRACE_SYMBOL"

/-- The comparisons of a condition. -/
inductive Relation where
  | equal | notEqual | greater | greaterEqual | smaller | smallerEqual
  deriving DecidableEq

/-- The kinds of tokens. -/
inductive TokenKind where
  | keyword | word | symbol | identifier | type | value | dereference
  | constantName | variableName | pointerName | functionName
  | relation (relation : Relation)
  | comment
  | size | dynamicSize | number | float | string | operand
  /-- A keyword that stands as the kind of its token. -/
  | mark (keyword : Keyword)
  | other (label : String)
  deriving DecidableEq

namespace TokenKind

/-- The label of a kind. -/
def label : TokenKind → String
  | .keyword => "KEYWORD_TOKEN"
  | .word => "WORD_TOKEN"
  | .symbol => "SYMBOL_TOKEN"
  | .identifier => "IDENTIFIER_TOKEN"
  | .type => "TYPE_TOKEN"
  | .value => "VALUE_TOKEN"
  | .dereference => "DEREFERENCE_PTR_TOKEN"
  | .constantName => "CONST_IDENTIFIER_TOKEN"
  | .variableName => "VAR_IDENTIFIER_TOKEN"
  | .pointerName => "PTR_IDENTIFIER_TOKEN"
  | .functionName => "FUNCTION_IDENTIFIER_TOKEN"
  | .relation .equal => "EQUAL_TOKEN"
  | .relation .notEqual => "NOT_EQUAL_TOKEN"
  | .relation .greater => "GREATER_THAN_TOKEN"
  | .relation .smaller => "SMALLER_THAN_TOKEN"
  | .relation .greaterEqual => "GREATER_THAN_OR_EQUAL_TOKEN"
  | .relation .smallerEqual => "SMALLER_THAN_OR_EQUAL_TOKEN"
  | .comment => "COMMENT_TOKEN"
  | .size => "SIZE_LITERAL"
  | .dynamicSize => "DYNAMIC_SIZE_LITERAL"
  | .number => "NUMBER_LITERAL"
  | .float => "FLOAT_LITERAL"
  | .string => "STR_LITERAL"
  | .operand => "OP_LEFT_ELEMENT_LITERAL"
  | .mark named => named.label
  | .other name => name

/-- The kinds with a label of their own. -/
def known : List TokenKind :=
  [.keyword, .word, .symbol, .identifier, .type, .value, .dereference, .constantName, .variableName,
    .pointerName, .functionName, .relation .equal, .relation .notEqual, .relation .greater,
    .relation .smaller, .relation .greaterEqual, .relation .smallerEqual, .comment, .size,
    .dynamicSize, .number, .float, .string, .operand, .mark .into, .mark .comment]

/-- The kind that a label means. -/
def ofLabel (label : String) : TokenKind :=
  (known.find? fun kind => kind.label = label).getD (.other label)

theorem label_ofLabel (name : String) : (ofLabel name).label = name := by
  unfold ofLabel
  cases found : known.find? fun kind => kind.label = name with
  | none => simp [label]
  | some kind => simpa using List.find?_some found

end TokenKind

/-- A token of a line. -/
inductive Token where
  | blank
  | of (kind : TokenKind) (value : Atom)
  deriving DecidableEq

namespace Token

/-- The token of a keyword. -/
def keyword (keyword : Keyword) : Token :=
  .of .keyword (.text keyword.label)

/-- The token of a symbol. -/
def symbol (symbol : Symbol) : Token :=
  .of .symbol (.text symbol.label)

/-- The kind and the value of a token that is not blank. -/
def entry : Token → Except Fault (TokenKind × Atom)
  | .blank => .error .missingItem
  | .of kind value => .ok (kind, value)

/-- The token at an index, where a negative index counts from the end. -/
def tokenAt (tokens : List Token) (index : Int) : Except Fault Token :=
  match Text.itemAt? tokens index with
  | some token => .ok token
  | none => .error .missingItem

/-- The greatest index; the least is one below its negative. -/
def greatestIndex : Int := 9223372036854775807

/-- The token at an index that may be missing or too large to be one. -/
def tokenAtAny (tokens : List Token) (index : Option Int) : Except Fault Token :=
  match index with
  | none => .error (.noIndex Atom.absent.sort)
  | some index =>
      if index < -(greatestIndex + 1) ∨ greatestIndex < index then .error .indexTooLarge
      else tokenAt tokens index

/-- The kind and the value at an index. -/
def entryAt (tokens : List Token) (index : Int) : Except Fault (TokenKind × Atom) :=
  (tokenAt tokens index).bind entry

/-- The value at an index. -/
def valueAt (tokens : List Token) (index : Int) : Except Fault Atom :=
  (entryAt tokens index).map Prod.snd

/-! ## What a token is -/

/-- Whether a token, if it is not blank, has one of the kinds. -/
def hasKind (kinds : List TokenKind) (token : Token) : Except Fault Bool :=
  token.entry.map fun entry => kinds.contains entry.1

/-- Whether a token, if it is not blank, is the given one. -/
def isSame (token expected : Token) : Except Fault Bool :=
  token.entry.map fun _ => token = expected

/-- Whether a token opens a constant; a blank token does not. -/
def isConstant (token : Token) : Except Fault Bool :=
  .ok (token = keyword .const)

/-- Whether a token opens a variable; a blank token does not. -/
def isVariable (token : Token) : Except Fault Bool :=
  .ok (token = keyword .var)

/-- Whether a token opens a pointer. -/
def isPointer (token : Token) : Except Fault Bool :=
  token.isSame (keyword .ptr)

/-- Whether a token opens a system call. -/
def isSyscall (token : Token) : Except Fault Bool :=
  token.isSame (keyword .syscall)

/-- Whether a token opens a conditional. -/
def isConditional (token : Token) : Except Fault Bool :=
  token.isSame (keyword .cond)

/-- Whether a token is a name in a declaration. -/
def isWord (token : Token) : Except Fault Bool :=
  token.hasKind [.word]

/-- Whether a token is a size. -/
def isSize (token : Token) : Except Fault Bool :=
  token.hasKind [.size, .dynamicSize]

/-- Whether a token is a type. -/
def isType (token : Token) : Except Fault Bool :=
  token.hasKind [.type]

/-- Whether a token is the semicolon of a declaration or a system call. -/
def isSemicolon (token : Token) : Except Fault Bool :=
  token.isSame (symbol .semicolon)

/-- Whether a token has the label of a multiplication, an addition, a pointer or a division as
value. -/
def isOperation (token : Token) : Except Fault Bool :=
  token.entry.map fun entry =>
    [Keyword.mul, .add, .ptr, .div].any fun keyword => entry.2 = .text keyword.label

/-- Whether the first token of a line is of a sort. -/
def opens (test : Token → Except Fault Bool) (tokens : List Token) : Except Fault Bool :=
  (tokenAt tokens 0).bind test

end Token

end LineCompiler
