import LineCompiler.Names
import LineCompiler.Token.Basic

/-!
# Nodes of a program

A program is a list of nodes.  The nodes that generate code are declarations, operations, system
calls and conditionals; the others stand in a program without any effect.  A node has slots, and a
slot may hold any node: a name or a literal as well as a bare value, a list, a table or a whole
statement.  What is asked of a node that does not have it is a fault.
-/

namespace LineCompiler

/-- The scalar types. -/
inductive TypeName where
  | int | float | str | char | call
  deriving DecidableEq

/-- How wide a scalar type is by default. -/
def TypeName.bits : TypeName → Int
  | .int => 32
  | .float => 64
  | .str => 16
  | .char => 2
  | .call => 22

/-- The name of a scalar type's sort. -/
def TypeName.sort : TypeName → String
  | .int => "IntType"
  | .float => "FloatType"
  | .str => "StrType"
  | .char => "CharType"
  | .call => "CallType"

/-- The types that source lines can name, by their spellings. -/
def TypeName.spellings : List (String × TypeName) :=
  [("int", .int), ("float", .float), ("str", .str), ("char", .char)]

/-- The type that a spelling means. -/
def TypeName.ofSpelling? : Atom → Option TypeName
  | .text spelling => spellings.lookup spelling
  | _ => none

/-- The sorts of literals. -/
inductive LiteralKind where
  | number | float | string | char
  deriving DecidableEq

/-- The name of a literal's sort. -/
def LiteralKind.sort : LiteralKind → String
  | .number => "NumberLiteral"
  | .float => "FloatLiteral"
  | .string => "StringLiteral"
  | .char => "CharLiteral"

/-- The type that a literal of each sort has by default. -/
def LiteralKind.type : LiteralKind → TypeName
  | .number => .int
  | .float => .float
  | .string => .str
  | .char => .char

/-- The literals of each scalar type. -/
def TypeName.literal : TypeName → LiteralKind
  | .int | .call => .number
  | .float => .float
  | .str => .string
  | .char => .char

/-- The values that have a name of their own. -/
inductive FixedKind where
  | yes | no | null
  deriving DecidableEq

/-- The name of the sort of a named value. -/
def FixedKind.sort : FixedKind → String
  | .yes => "TRUE"
  | .no => "FALSE"
  | .null => "NULL"

/-- The named value of a sort. -/
def FixedKind.ofSort? (name : String) : Option FixedKind :=
  [FixedKind.yes, .no, .null].find? fun kind => kind.sort = name

/-- The value that a named value has by default. -/
def FixedKind.value : FixedKind → Atom
  | .yes => .integer 1
  | .no => .integer 0
  | .null => .absent

/-- The sorts of storage without a value. -/
inductive ExtentKind where
  | dynamic | uninitialized
  deriving DecidableEq

/-- The name of a sort of storage. -/
def ExtentKind.sort : ExtentKind → String
  | .dynamic => "DynamicSize"
  | .uninitialized => "UninitializedVariable"

/-- The ways to refer to a name. -/
inductive Role where
  | dereference | constant | result
  deriving DecidableEq

/-- The name of a reference's sort. -/
def Role.sort : Role → String
  | .dereference => "DereferencePointer"
  | .constant => "CallConstant"
  | .result => "OpResultAssignment"

/-- The name of a comparison's sort. -/
def Relation.sort : Relation → String
  | .equal => "EqualSymbol"
  | .notEqual => "NotEqualSymbol"
  | .greater => "GreaterThanSymbol"
  | .greaterEqual => "GreaterThanOrEqualToSymbol"
  | .smaller => "SmallerThanSymbol"
  | .smallerEqual => "SmallerThanOrEqualToSymbol"

/-- The arithmetic operations. -/
inductive Arithmetic where
  | multiply | add | divide | subtract
  deriving DecidableEq

/-- The name of an operation's sort. -/
def Arithmetic.sort : Arithmetic → String
  | .multiply => "MultiplyOp"
  | .add => "AdditionOp"
  | .divide => "DivideOp"
  | .subtract => "SubtractionOp"

/-- A node of a program, or a value in one of its slots. -/
inductive Node where
  | bare (value : Atom)
  | list (items : List Node)
  | table (labels : List String) (values : List Node)
  /-- A sort itself, and not a node of it, with the text that displays it. -/
  | sortItself (name shown : String)
  /-- A node of a sort that has no fields. -/
  | blank (name : String)
  | type (name : TypeName) (bits : Node)
  /-- A choice among types. -/
  | union (members : Node)
  | identifier (name : Node)
  | literal (kind : LiteralKind) (value type : Node)
  | fixed (kind : FixedKind) (value : Node)
  | extent (kind : ExtentKind) (bits : Node)
  | address (value : Node)
  | reference (role : Role) (target : Node)
  | relation (relation : Relation)
  | compare (left right relation : Node)
  | constant (identifier size type value : Node) (line : Atom)
  | variable (identifier size type value : Node) (line : Atom)
  | pointer (identifier type value : Node) (line : Atom)
  | arithmetic (operation : Arithmetic) (left right result : Node)
  | syscall (number arguments error : Node)
  | ifElse (condition thenBlock elseBlock : Node)
  | giveBack (value : Node)
  | argumentValue (identifier value register : Node)
  | argument (identifier type default register : Node)
  | argumentList (items : Node)
  | callArguments (items : Node)
  | function (identifier arguments body returnType code isSyscall : Node)
  | call (identifier arguments : Node)
  | program (statements : Node)
  | sourceLine (number content : Node)

namespace Node

/-- The node that stands where there is none. -/
def absent : Node :=
  .bare .absent

instance : Inhabited Node := ⟨absent⟩

/-- A text as a node. -/
def text (content : String) : Node :=
  .bare (.text content)

/-- An identifier with the given name. -/
def ofName (name : Atom) : Node :=
  .identifier (.bare name)

/-- A scalar type of the default width. -/
def ofType (name : TypeName) : Node :=
  .type name (.bare (.integer name.bits))

/-- A literal of the default type. -/
def ofLiteral (kind : LiteralKind) (value : Atom) : Node :=
  .literal kind (.bare value) (ofType kind.type)

/-- A named value with its default value. -/
def ofFixed (kind : FixedKind) : Node :=
  .fixed kind (.bare kind.value)

/-- The name of a node's sort. -/
def sort : Node → String
  | .bare value => value.sort
  | .list _ => "list"
  | .table _ _ => "dict"
  | .sortItself _ _ => "type"
  | .blank name => name
  | .type name _ => name.sort
  | .union _ => "MultiType"
  | .identifier _ => "Identifier"
  | .literal kind _ _ => kind.sort
  | .fixed kind _ => kind.sort
  | .extent kind _ => kind.sort
  | .address _ => "MemoryAddress"
  | .reference role _ => role.sort
  | .relation compared => compared.sort
  | .compare _ _ _ => "Compare"
  | .constant _ _ _ _ _ => "Constant"
  | .variable _ _ _ _ _ => "Variable"
  | .pointer _ _ _ _ => "Pointer"
  | .arithmetic operation _ _ _ => operation.sort
  | .syscall _ _ _ => "Syscall"
  | .ifElse _ _ _ => "IfElse"
  | .giveBack _ => "Return"
  | .argumentValue _ _ _ => "ArgumentValue"
  | .argument _ _ _ _ => "Argument"
  | .argumentList _ => "Arguments"
  | .callArguments _ => "CallArguments"
  | .function _ _ _ _ _ _ => "Function"
  | .call _ _ => "CallFunction"
  | .program _ => "Program"
  | .sourceLine _ _ => "LineModel"

/-! ## Fields -/

/-- The fault of asking a node for a field that it does not have. -/
def lacks (node : Node) (field : String) : Fault :=
  match node with
  | .sortItself name _ => .missingSortField name field
  | node => .missingField node.sort field

/-- The name in a node. -/
def name : Node → Except Fault Node
  | .identifier name | .callArguments name => .ok name
  | node => .error (node.lacks "name")

/-- The value in a node.  The sort of a named value has its default value. -/
def value : Node → Except Fault Node
  | .literal _ value _ | .fixed _ value | .address value => .ok value
  | .constant _ _ _ value _ | .variable _ _ _ value _ | .pointer _ _ value _ => .ok value
  | .giveBack value | .argumentValue _ value _ => .ok value
  | .sortItself name shown =>
      match FixedKind.ofSort? name with
      | some kind => .ok (.bare kind.value)
      | none => .error ((Node.sortItself name shown).lacks "value")
  | node => .error (node.lacks "value")

/-- The identifier in a node. -/
def target : Node → Except Fault Node
  | .reference _ target => .ok target
  | .constant target _ _ _ _ | .variable target _ _ _ _ | .pointer target _ _ _ => .ok target
  | .argumentValue target _ _ | .argument target _ _ _ => .ok target
  | .function target _ _ _ _ _ | .call target _ => .ok target
  | node => .error (node.lacks "identifier")

/-- The left operand of a node. -/
def left : Node → Except Fault Node
  | .compare left _ _ | .arithmetic _ left _ _ => .ok left
  | node => .error (node.lacks "left")

/-- The right operand of a node. -/
def right : Node → Except Fault Node
  | .compare _ right _ | .arithmetic _ _ right _ => .ok right
  | node => .error (node.lacks "right")

/-- The relation by which a node compares. -/
def comparedBy : Node → Except Fault Relation
  | .compare _ _ (.relation found) => .ok found
  | .compare _ _ symbol => .error (.unknownSort symbol.sort)
  | node => .error (node.lacks "symbol")

/-- The items of a node: those of a list, the characters of a text, or the labels of a table. -/
def items : Node → Except Fault (List Node)
  | .list items => .ok items
  | .bare (.text content) => .ok (content.toList.map fun c => text (String.singleton c))
  | .table labels _ => .ok (labels.map text)
  | node => .error (.noItems node.sort)

/-! ## Tests -/

/-- Whether there is no node. -/
def isAbsent : Node → Bool
  | .bare .absent => true
  | _ => false

/-- Whether a node is an identifier. -/
def isName : Node → Bool
  | .identifier _ => true
  | _ => false

/-- Whether values of a type are laid out as bytes. -/
def isBytes : Node → Bool
  | .type .str _ | .type .char _ => true
  | _ => false

end Node

/-- A list of nodes with the names that the source declares. -/
structure Program where
  statements : List Node
  names : Names := {}

end LineCompiler
