import LineCompiler.Assembly.Emission
import LineCompiler.Program.Outline

/-!
# Code for programs

Declarations go to the data and bss sections.  Operations, system calls and conditionals go to the
text section under the label of the block they stand in; the statements outside all blocks stand
under the label of the main routine.  Each block of a conditional has a label of its own, whose
number is drawn, and every statement of a block is followed by a return.
-/

namespace LineCompiler

namespace Generate

/-- A line of code: an instruction behind a tab. -/
def instruction (text : String) : String :=
  "\t" ++ text ++ "\n"

/-- The label of the main routine. -/
def mainLabel : String := "main"

/-- The code that every program starts with. -/
def prologue : Write where
  target := .text
  code :=
    ["global _start\n", "_start:\n", instruction ("call " ++ mainLabel), instruction "mov rax, 60",
      instruction "mov rdi, 0", instruction "syscall"]

/-- A write to the text section. -/
def inText (label : String) (code : List String) : Write :=
  { target := .text, label, code }

/-! ## Declarations -/

/-- The line that lays out a value: bytes with an end mark, or a quadword. -/
def dataLine (name type value : Node) (endMark : String) : Except Fault (List Write) := do
  let name ← name.name
  let value ← value.value
  let line :=
    if type.isBytes then name.plain ++ " db " ++ value.plain ++ ", " ++ endMark
    else name.plain ++ " dq " ++ value.plain
  return [{ target := .data, code := [instruction line] }]

/-- The line that reserves storage. -/
def reserveLine (name size : Node) : Except Fault (List Write) := do
  let name ← name.name
  let size ← size.value
  return [{ target := .bss, code := [instruction (name.plain ++ " resq " ++ size.plain)] }]

/-- The end mark of constants. -/
def constantEnd : String := "0"

/-- The end mark of variables and pointers. -/
def variableEnd : String := "0xA"

/-! ## Operations -/

/-- The content of the storage with a name. -/
def contentOf (name : Node) : String :=
  "[" ++ name.plain ++ "]"

/-- An operand: the content of a name, or a value. -/
def operandText (operand : Node) : Except Fault String :=
  match operand with
  | .identifier name => .ok (contentOf name)
  | operand => operand.value.map Node.plain

/-- The two operands of an addition, a subtraction or a division.  A right operand that is not a
name takes the place of the left one and leaves its own place without a value. -/
def operandTexts (left right : Node) : Except Fault (String × String) := do
  let first ← operandText left
  let second ← operandText right
  return if right.isName then (first, second) else (second, Atom.absent.plain)

/-- The instructions of an operation up to the store of its result, and the register that holds
it. -/
def operationCode (operation : Arithmetic) (left right : Node) :
    Except Fault (List String × String) := do
  match operation with
  | .multiply =>
      let first ← operandText left
      let second ← operandText right
      return (["mov rax, " ++ first, "mov rbx, " ++ second, "imul rax, rbx"], "rax")
  | .divide =>
      let (first, second) ← operandTexts left right
      return (["mov rax, " ++ first, "xor rdx, rdx", "mov rcx, " ++ second, "idiv rcx"], "rax")
  | .add =>
      let (first, second) ← operandTexts left right
      return (["mov rax, " ++ first, "add rax, " ++ second], "rax")
  | .subtract =>
      let (first, second) ← operandTexts left right
      return (["mov rbx, " ++ first, "sub rbx, " ++ second], "rbx")

/-- The code of an operation. -/
def operation (label : String) (operation : Arithmetic) (left right result : Node) :
    Except Fault (List Write) := do
  let (code, register) ← operationCode operation left right
  let target ← result.target
  let name ← target.name
  let store := "mov " ++ contentOf name ++ ", " ++ register
  return [inText label ((code ++ [store]).map instruction)]

/-! ## System calls -/

/-- The registers of the arguments of a system call. -/
def argumentRegisters : List String :=
  ["rdi", "rsi", "rdx", "r10", "r8", "r9"]

/-- Whether an argument is the name of a constant or a variable. -/
def isStored (names : Names) : Node → Bool
  | .bare (.text name) => (names.constants ++ names.vars).contains name
  | _ => false

/-- The text of an argument: a dereferenced name and the name of a constant or a variable stand for
their contents. -/
def argumentText (names : Names) (argument : Node) : Except Fault String :=
  match argument with
  | .reference .dereference target => target.name.map contentOf
  | argument =>
      .ok (if isStored names argument then "[" ++ argument.plain ++ "]" else argument.plain)

/-- The code that loads the arguments, each by a write of its own, into the given registers. -/
def loadArguments (names : Names) (label : String) (draws : Draws) :
    List String → List Node → Emission
  | _, [] => .write draws []
  | [], _ :: _ => .fail draws .missingItem
  | register :: registers, argument :: rest =>
      match argumentText names argument with
      | .error fault => .fail draws fault
      | .ok text =>
          (Emission.write draws
            [inText label [instruction ("mov " ++ register ++ ", " ++ text)]]).andThen
            fun draws => loadArguments names label draws registers rest

/-- The text of the number of a system call. -/
def numberText (number : Node) : String :=
  match number with
  | .identifier name => contentOf name
  | number => number.plain

/-- The code that loads the items of a node as arguments. -/
def loadItems (names : Names) (label : String) (draws : Draws) (arguments : Node) : Emission :=
  match arguments.items with
  | .error fault => .fail draws fault
  | .ok arguments => loadArguments names label draws argumentRegisters arguments

/-- The code of a system call.  It takes one draw. -/
def syscall (names : Names) (label : String) (number arguments error : Node) (draws : Draws) :
    Emission :=
  let draws := draws.skip 1
  match error.name with
  | .error fault => .fail draws fault
  | .ok error =>
      ((Emission.write draws
        [inText label [instruction ("mov rax, " ++ numberText number)]]).andThen
        fun draws => loadItems names label draws arguments).andThen
        fun draws =>
          .write draws
            [inText label [instruction "syscall"],
              inText label [instruction ("mov " ++ contentOf error ++ ", rax")]]

/-! ## Conditionals -/

/-- The jump that is taken when a comparison holds. -/
def jump : Relation → String
  | .equal => "je"
  | .notEqual => "jne"
  | .greater => "jg"
  | .greaterEqual => "jge"
  | .smaller => "jl"
  | .smallerEqual => "jle"

/-- The comparison that holds when another does not. -/
def opposite : Relation → Relation
  | .equal => .notEqual
  | .notEqual => .equal
  | .greater => .smallerEqual
  | .greaterEqual => .smaller
  | .smaller => .greaterEqual
  | .smallerEqual => .greater

/-- The code that compares the two operands of a node. -/
def compareCode (condition : Node) : Except Fault (List String) := do
  match ← condition.left, ← condition.right with
  | .identifier left, .identifier right =>
      return ["mov eax, " ++ contentOf left, "cmp eax, " ++ contentOf right]
  | .identifier left, .literal _ right _ =>
      return ["mov eax, " ++ right.plain, "cmp " ++ contentOf left ++ ", eax"]
  | left, right =>
      let left ← left.value
      let right ← right.name
      return ["mov eax, " ++ left.plain, "cmp eax, " ++ contentOf right]

/-- The jumps to the two blocks of a conditional. -/
def jumps (label ifTrue ifFalse : String) (condition : Node) : Except Fault (List Write) :=
  condition.comparedBy.map fun relation =>
    [inText label [instruction (jump relation ++ " " ++ ifTrue)],
      inText label [instruction (jump (opposite relation) ++ " " ++ ifFalse)]]

/-- The label of the block for a condition that holds. -/
def thenLabel (draws : Draws) : String :=
  "if_block_" ++ Nat.repr draws.label

/-- The label of the block for a condition that does not hold. -/
def elseLabel (draws : Draws) : String :=
  "else_block_" ++ Nat.repr draws.label

/-- The return that follows every statement of a block. -/
def leave (label : String) : Write :=
  inText label [instruction "ret"]

/-- How many draws a conditional takes before its labels. -/
def conditionalDraws : Nat := 8

/-- How many draws a pointer takes. -/
def pointerDraws : Nat := 8

/-! ## Statements -/

mutual

/-- The code of a node that stands under a label. -/
def statement (names : Names) (label : String) (draws : Draws) : Node → Emission
  | .constant identifier _ type value _ =>
      .ofExcept draws (dataLine identifier type value constantEnd)
  | .variable identifier size type value _ =>
      .ofExcept draws
        (if value.isAbsent then reserveLine identifier size
        else dataLine identifier type value variableEnd)
  | .pointer identifier type value _ =>
      match identifier.name with
      | .error fault => .fail draws fault
      | .ok _ =>
          .ofExcept (draws.skip pointerDraws) (dataLine identifier type value variableEnd)
  | .arithmetic kind left right result =>
      .ofExcept draws (operation label kind left right result)
  | .syscall number arguments error => syscall names label number arguments error draws
  | .ifElse condition thenBlock elseBlock =>
      (Emission.ofExcept (draws.skip conditionalDraws)
        ((compareCode condition).map fun code =>
          [inText label (code.map instruction)])).andThen fun draws =>
        let ifTrue := thenLabel draws
        let ifFalse := elseLabel (draws.skip 1)
        ((block names ifTrue (draws.skip 2) thenBlock).andThen fun draws =>
          block names ifFalse draws elseBlock).andThen fun draws =>
          .ofExcept draws (jumps label ifTrue ifFalse condition)
  | _ => .write draws []

/-- The code of the items of a block.  Those of a text or a table are bare, and generate nothing but
their returns. -/
def block (names : Names) (label : String) (draws : Draws) : Node → Emission
  | .list nodes => blockItems names label draws nodes
  | node =>
      .ofExcept draws
        (node.items.map fun items => List.replicate items.length (leave label))

/-- The code of the statements of a block, each with a return after it. -/
def blockItems (names : Names) (label : String) (draws : Draws) : List Node → Emission
  | [] => .write draws []
  | node :: rest =>
      ((statement names label draws node).andThen fun draws =>
        .write draws [leave label]).andThen fun draws =>
        blockItems names label draws rest

end

/-- The code of the statements outside all blocks. -/
def statements (names : Names) (draws : Draws) : List Node → Emission
  | [] => .write draws []
  | node :: rest =>
      (statement names mainLabel draws node).andThen fun draws => statements names draws rest

/-- The code of a program. -/
def program (draws : Draws) (program : Program) : Emission :=
  (Emission.write draws [prologue]).andThen fun draws =>
    statements program.names draws program.statements

end Generate

end LineCompiler
