import LineCompiler.Number.Integer
import LineCompiler.Program.Node
import LineCompiler.Proofs.Source.Comment
import LineCompiler.Proofs.Token.Opener

/-!
# The flat language

The flat language has declarations, system calls, and conditionals with two blocks that hold no
conditional.  Its types keep everything out that has no place on a line: a name is no beginning of a
reserved word, a plain value has no quote, and so on.

Each statement has a canonical text and a node.  The node of a declaration carries the number of its
line, so the nodes of a program depend on the line that the program starts with.

```text
const n[2]: int = 3;        const n: str = "a // b";        var n: int;
ptr p: int = 3;             ptr p: int;                     syscall 1, n, *p, -7, e;
if (n >= 10) {
} else {
}
```
-/

namespace LineCompiler.Flat

open Text Number

/-! ## Names and numerals -/

/-- The words whose beginnings are no names. -/
def reserved : List (List Char) :=
  [Opener.const.spelling, Opener.var.spelling, Opener.ptr.spelling, Opener.syscall.spelling,
    Opener.cond.spelling, ['e', 'l', 's', 'e']]

/-- A name. -/
structure Name where
  first : Char
  rest : List Char
  first_ok : first.isAlpha = true ∨ first = '_'
  rest_ok : ∀ c ∈ rest, c.isAlphanum = true ∨ c = '_'
  free : ∀ word ∈ reserved, ¬ first :: rest <+: word

/-- The characters of a name. -/
def Name.text (name : Name) : List Char :=
  name.first :: name.rest

/-- A name as the value of a token. -/
def Name.atom (name : Name) : Atom :=
  .ofChars name.text

/-- A decimal numeral without a sign. -/
structure Numeral where
  digits : List Char
  nonempty : digits ≠ []
  decimal : ∀ c ∈ digits, c.isDigit = true

/-! ## Values -/

/-- A text that can stand for itself as a value. -/
structure IsPlain (text : List Char) : Prop where
  nonempty : text ≠ []
  trimmed : strip text = text
  oneLine : '\n' ∉ text
  noSingleQuote : singleQuote ∉ text
  noDoubleQuote : doubleQuote ∉ text
  noSemicolon : ';' ∉ text
  noSlashes : ¬ Source.slashes <:+: text

/-- A text that can stand between double quotes. -/
structure IsBody (text : List Char) : Prop where
  oneLine : '\n' ∉ text
  noDoubleQuote : doubleQuote ∉ text
  noBackslash : '\\' ∉ text

/-- The value of a declaration. -/
inductive Value where
  | plain (text : List Char) (isPlain : IsPlain text)
  | quoted (body : List Char) (isBody : IsBody body)

/-- The characters of a value. -/
def Value.text : Value → List Char
  | .plain text _ => text
  | .quoted body _ => doubleQuote :: (body ++ [doubleQuote])

/-- A type with its spelling. -/
abbrev Scalar := { entry : String × TypeName // entry ∈ TypeName.spellings }

/-- The characters of a type. -/
def Scalar.text (type : Scalar) : List Char :=
  type.1.1.toList

/-! ## Operands and arguments -/

/-- An operand of a comparison; an integer is kept as it is written. -/
inductive Operand where
  | named (name : Name)
  | integer (negative : Bool) (numeral : Numeral) (short : numeral.digits.length ≤ maxDigits)

/-- The characters of an operand. -/
def Operand.text : Operand → List Char
  | .named name => name.text
  | .integer negative numeral _ => if negative then '-' :: numeral.digits else numeral.digits

/-- The node of an operand. -/
def Operand.node : Operand → Node
  | .named name => .ofName name.atom
  | .integer negative numeral short =>
      .ofLiteral .number (.ofChars (Operand.integer negative numeral short).text)

/-- The comparisons that can be written. -/
inductive Comparison where
  | equal | notEqual | greater | greaterEqual | smaller

/-- The characters of a comparison. -/
def Comparison.text : Comparison → List Char
  | .equal => ['=', '=']
  | .notEqual => ['!', '=']
  | .greater => ['>']
  | .greaterEqual => ['>', '=']
  | .smaller => ['<']

/-- The relation of a comparison. -/
def Comparison.relation : Comparison → Relation
  | .equal => .equal
  | .notEqual => .notEqual
  | .greater => .greater
  | .greaterEqual => .greaterEqual
  | .smaller => .smaller

/-- The number of a system call. -/
inductive CallNumber where
  | integer (value : Nat) (known : value ≤ 456)
  | named (name : Name)

/-- The characters of the number of a system call. -/
def CallNumber.text : CallNumber → List Char
  | .integer value _ => (integerText value).toList
  | .named name => name.text

/-- The node of the number of a system call. -/
def CallNumber.node : CallNumber → Node
  | .integer value _ => .bare (.integer value)
  | .named name => .ofName name.atom

/-- An argument of a system call. -/
inductive Argument where
  | integer (value : Int) (short : value.natAbs < 10 ^ maxDigits)
  | named (name : Name)
  | dereferenced (name : Name)

/-- The characters of an argument. -/
def Argument.text : Argument → List Char
  | .integer value _ => (integerText value).toList
  | .named name => name.text
  | .dereferenced name => '*' :: name.text

/-- The node of an argument. -/
def Argument.node : Argument → Node
  | .integer value _ => .bare (.integer value)
  | .named name => .bare name.atom
  | .dereferenced name => .reference .dereference (.ofName name.atom)

/-! ## Statements -/

/-- A statement that fits on one line. -/
inductive Simple where
  | constant (name : Name) (size : Option Numeral) (type : Scalar) (value : Value)
  | var (name : Name) (size : Option Numeral) (type : Scalar)
  | pointer (name : Name) (type : Scalar) (value : Option Value)
  | syscall (number : CallNumber) (arguments : List Argument) (arity : arguments.length ≤ 6)
      (error : Name)

/-- A statement. -/
inductive Statement where
  | simple (statement : Simple)
  | conditional (left : Operand) (comparison : Comparison) (right : Operand)
      (thenBlock elseBlock : List Simple)

/-! ## Texts -/

/-- The text of a size behind a name. -/
def sizeSuffix : Option Numeral → List Char
  | none => []
  | some numeral => '[' :: (numeral.digits ++ [']'])

/-- The text of a value behind a type. -/
def valueSuffix : Option Value → List Char
  | none => []
  | some value => ' ' :: '=' :: ' ' :: value.text

/-- The text of a declaration behind its keyword. -/
def declarationText (name : Name) (size : Option Numeral) (type : Scalar) (value : Option Value) :
    List Char :=
  ' ' :: (name.text ++ (sizeSuffix size ++
    ':' :: ' ' :: (type.text ++ (valueSuffix value ++ [';', '\n']))))

/-- The fields of a system call. -/
def callFields (number : CallNumber) (arguments : List Argument) (error : Name) :
    List Char × List (List Char) :=
  (' ' :: number.text,
    arguments.map (fun argument => ' ' :: argument.text) ++ [' ' :: (error.text ++ [';', '\n'])])

/-- The text of a system call behind its keyword. -/
def callText (number : CallNumber) (arguments : List Argument) (error : Name) : List Char :=
  let fields := callFields number arguments error
  fields.1 ++ fields.2.flatMap (',' :: ·)

/-- The text of the head of a conditional behind its keyword. -/
def headText (left : Operand) (comparison : Comparison) (right : Operand) : List Char :=
  ' ' :: '(' :: (left.text ++ ' ' :: (comparison.text ++ ' ' :: (right.text ++
    [')', ' ', openBrace, '\n'])))

/-- The word that opens a simple statement. -/
def Simple.opener : Simple → Opener
  | .constant .. => .const
  | .var .. => .var
  | .pointer .. => .ptr
  | .syscall .. => .syscall

/-- The text of a simple statement behind its keyword. -/
def Simple.text : Simple → List Char
  | .constant name size type value => declarationText name size type (some value)
  | .var name size type => declarationText name size type none
  | .pointer name type value => declarationText name none type value
  | .syscall number arguments _ error => callText number arguments error

/-- The line of a simple statement. -/
def Simple.line (statement : Simple) : List Char :=
  statement.opener.spelling ++ statement.text

/-- The line of the head of a conditional. -/
def headLine (left : Operand) (comparison : Comparison) (right : Operand) : List Char :=
  Opener.cond.spelling ++ headText left comparison right

/-- The line between the two blocks of a conditional. -/
def elseLine : List Char :=
  [closeBrace, ' ', 'e', 'l', 's', 'e', ' ', openBrace, '\n']

/-- The line behind the two blocks of a conditional. -/
def endLine : List Char :=
  [closeBrace, '\n']

/-- The lines of the statements of a block. -/
def blockLines (indent : Nat) (block : List Simple) : List (List Char) :=
  block.map fun statement => List.replicate indent ' ' ++ statement.line

/-- The lines of a statement. -/
def Statement.lines (indent : Nat) : Statement → List (List Char)
  | .simple statement => [statement.line]
  | .conditional left comparison right thenBlock elseBlock =>
      headLine left comparison right ::
        (blockLines indent thenBlock ++ elseLine :: (blockLines indent elseBlock ++ [endLine]))

/-- The lines of a program; the statements in blocks are indented. -/
def print (indent : Nat) (program : List Statement) : List String :=
  (program.flatMap (Statement.lines indent)).map String.ofList

/-! ## Nodes -/

/-- The node of a size. -/
def sizeNode (size : Option Numeral) : Node :=
  .ofLiteral .number
    (match size with
    | none => .integer Declaration.defaultSize
    | some numeral => .ofChars numeral.digits)

/-- The node of a simple statement on the line with the given number. -/
def Simple.node (number : Nat) : Simple → Node
  | .constant name size type value =>
      .constant (.ofName name.atom) (sizeNode size) (.ofType type.1.2)
        (.ofLiteral type.1.2.literal (.ofChars value.text)) (.integer number)
  | .var name size type =>
      .variable (.ofName name.atom) (sizeNode size) (.ofType type.1.2) .absent (.integer number)
  | .pointer name type value =>
      .pointer (.ofName name.atom) (.ofType type.1.2)
        (.address (.bare (match value with
          | none => .integer 0
          | some value => .ofChars value.text)))
        (.integer number)
  | .syscall number arguments _ error =>
      .syscall number.node (.list (arguments.map Argument.node)) (.ofName error.atom)

/-- The nodes of simple statements on consecutive lines. -/
def blockNodes (number : Nat) : List Simple → List Node
  | [] => []
  | statement :: rest => statement.node number :: blockNodes (number + 1) rest

/-- The node of a statement whose first line has the given number. -/
def Statement.node (number : Nat) : Statement → Node
  | .simple statement => statement.node number
  | .conditional left comparison right thenBlock elseBlock =>
      .ifElse (.compare left.node right.node (.relation comparison.relation))
        (.list (blockNodes (number + 1) thenBlock))
        (.list (blockNodes (number + 1 + thenBlock.length + 1) elseBlock))

/-- How many lines a statement has. -/
def Statement.height : Statement → Nat
  | .simple _ => 1
  | .conditional _ _ _ thenBlock elseBlock => thenBlock.length + elseBlock.length + 3

/-- The nodes of a program whose first line has the given number. -/
def nodes (number : Nat) : List Statement → List Node
  | [] => []
  | statement :: rest => statement.node number :: nodes (number + statement.height) rest

end LineCompiler.Flat
