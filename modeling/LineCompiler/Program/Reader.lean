import LineCompiler.Program.Node
import LineCompiler.Token.Stream

/-!
# From token lines to programs

Token lines are read one after another.  A line is judged by its first token: a keyword opens a
statement, a symbol may close a block, and any other line is passed over.

At most one conditional is under construction.  It takes its place in the program when its
else-block is closed, and it keeps that place while it is still being extended: the list of
statements has a hole there, which is filled with the conditional as it stands when the next one
opens or the reading ends.
-/

namespace LineCompiler

/-- A conditional under construction. -/
structure Conditional where
  condition : Node
  thenBlock : List Node := []
  elseBlock : List Node := []

/-- The node of a conditional. -/
def Conditional.node (conditional : Conditional) : Node :=
  .ifElse conditional.condition (.list conditional.thenBlock) (.list conditional.elseBlock)

/-- How far the reading of token lines has come. -/
structure Reading where
  /-- The statements so far; a hole stands for the conditional under construction. -/
  statements : List (Option Node) := []
  current : Option Conditional := none
  inIf : Bool := false
  inElse : Bool := false

namespace Reading

/-- The statements with the holes filled. -/
def settled (reading : Reading) : List Node :=
  let filling := (reading.current.map Conditional.node).getD .absent
  reading.statements.map fun statement => statement.getD filling

/-- Adds a statement to the block that is open, or to the program. -/
def add (reading : Reading) (statement : Node) : Except Fault Reading :=
  if reading.inIf then
    match reading.current with
    | none => .error (.missingField Atom.absent.sort "if_block_statements")
    | some conditional =>
        .ok { reading with
          current := some
            { conditional with thenBlock := conditional.thenBlock ++ [statement] } }
  else if reading.inElse then
    match reading.current with
    | none => .error (.missingField Atom.absent.sort "else_block_statements")
    | some conditional =>
        .ok { reading with
          current := some
            { conditional with elseBlock := conditional.elseBlock ++ [statement] } }
  else .ok { reading with statements := reading.statements ++ [some statement] }

/-- Starts the construction of a conditional. -/
def openConditional (reading : Reading) (condition : Node) : Reading :=
  { reading with
    statements := reading.settled.map some
    current := some { condition }
    inIf := true }

/-- Closes the block that is open; the end of an else-block gives the conditional its place. -/
def closeBlock (reading : Reading) : Reading :=
  if reading.inIf then { reading with inIf := false }
  else if reading.inElse then
    { reading with inElse := false, statements := reading.statements ++ [none] }
  else reading

/-- Opens the else-block. -/
def openElse (reading : Reading) : Reading :=
  { reading with inIf := false, inElse := true }

end Reading

namespace Reader

open Token (entryAt valueAt)

/-- The type that a token names. -/
def typeOf (value : Atom) : Except Fault TypeName :=
  match TypeName.ofSpelling? value with
  | some name => .ok name
  | none => .error (.unknownKey value.plain)

/-- The constant that a line declares. -/
def constant (line : Atom) (tokens : List Token) : Except Fault Node := do
  let name ← valueAt tokens 1
  let size ← valueAt tokens 2
  let type ← valueAt tokens 3
  let value ← valueAt tokens 4
  let type ← typeOf type
  return .constant (.ofName name) (.ofLiteral .number size) (.ofType type)
    (.ofLiteral type.literal value) line

/-- The variable that a line declares.  It has no value, also when the line gives one. -/
def variableNode (line : Atom) (tokens : List Token) : Except Fault Node := do
  let name ← valueAt tokens 1
  let size ← valueAt tokens 2
  let type ← valueAt tokens 3
  let _ ← entryAt tokens 4
  let type ← typeOf type
  return .variable (.ofName name) (.ofLiteral .number size) (.ofType type) .absent line

/-- The pointer that a line declares; without a value it is zero. -/
def pointer (line : Atom) (tokens : List Token) : Except Fault Node := do
  let name ← valueAt tokens 1
  let type ← valueAt tokens 2
  let (kind, value) ← entryAt tokens 3
  let value := if kind = .value then value else .integer 0
  let type ← typeOf type
  return .pointer (.ofName name) (.ofType type) (.address (.bare value)) line

/-- The arguments of a system call; the token after a star is dereferenced. -/
def arguments (starred : Bool) : List Token → Except Fault (List Node)
  | [] => .ok []
  | token :: rest => do
      let (kind, value) ← token.entry
      if kind = .dereference then arguments true rest
      else
        let argument :=
          if starred then .reference .dereference (.ofName value) else .bare value
        return argument :: (← arguments false rest)

/-- The system call that a line makes. -/
def syscall (tokens : List Token) : Except Fault Node := do
  let (kind, number) ← entryAt tokens 1
  let error ← valueAt tokens (-2)
  let number := if kind = .identifier then .ofName number else .bare number
  let arguments ← arguments false ((tokens.drop 2).dropLast.dropLast)
  return .syscall number (.list arguments) (.ofName error)

/-- An arithmetic operation.  Its parts are read, and then there is no operation to give them to. -/
def operation (tokens : List Token) : Except Fault Node := do
  let _ ← valueAt tokens 1
  let _ ← valueAt tokens 2
  let _ ← valueAt tokens 4
  throw .missingOperation

/-- The comparison that a spelling means. -/
def relationOf (value : Atom) : Except Fault Relation :=
  match value with
  | .text "==" => .ok .equal
  | .text "!=" => .ok .notEqual
  | .text ">" => .ok .greater
  | .text ">=" => .ok .greaterEqual
  | .text "<" => .ok .smaller
  | .text "<=" => .ok .smallerEqual
  | _ => .error (.unknownKey value.plain)

/-- An operand of a comparison. -/
def operand (kind : TokenKind) (value : Atom) : Node :=
  match kind with
  | .identifier => .ofName value
  | .number => .ofLiteral .number value
  | .float => .ofLiteral .float value
  | _ => .bare value

/-- The condition of a conditional. -/
def condition (tokens : List Token) : Except Fault Node := do
  let (leftKind, left) ← entryAt tokens 2
  let (rightKind, right) ← entryAt tokens 4
  let spelling ← valueAt tokens 3
  let relation ← relationOf spelling
  return .compare (operand leftKind left) (operand rightKind right) (.relation relation)

/-- Reads a line that opens with a keyword token of the given value. -/
def readKeyword (line : Atom) (tokens : List Token) (value : Atom) (reading : Reading) :
    Except Fault Reading :=
  if value = .text Keyword.const.label then (constant line tokens).bind reading.add
  else if value = .text Keyword.var.label then (variableNode line tokens).bind reading.add
  else if value = .text Keyword.ptr.label then (pointer line tokens).bind reading.add
  else if value = .text Keyword.syscall.label then (syscall tokens).bind reading.add
  else if value = .text Keyword.cond.label then
    (condition tokens).map reading.openConditional
  else if [Atom.text "mul", .text "add", .text "sub", .text "div"].contains value then
    (operation tokens).bind reading.add
  else .ok reading

/-- Reads a line that opens with a symbol token of the given value. -/
def readSymbol (tokens : List Token) (value : Atom) (reading : Reading) : Except Fault Reading := do
  let reading :=
    if value = .text Symbol.closeBrace.label then reading.closeBlock else reading
  let last ← valueAt tokens (-1)
  return if last = .text Keyword.alt.label then reading.openElse else reading

/-- Reads one token line. -/
def readLine (reading : Reading) (line : TokenLine) : Except Fault Reading :=
  if line.tokens.isEmpty then .ok reading
  else do
    let (kind, value) ← entryAt line.tokens 0
    match kind with
    | .symbol => readSymbol line.tokens value reading
    | .keyword => readKeyword line.line.number line.tokens value reading
    | _ => return reading

/-- The statements of token lines. -/
def read (lines : List TokenLine) : Except Fault (List Node) :=
  (lines.foldlM readLine {}).map Reading.settled

end Reader

end LineCompiler
