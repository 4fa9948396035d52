import LineCompiler.Program.Node

/-!
# Builtin functions

The functions that every program may call: `exit` ends it, `printi` prints a number and `prints`
prints a text.  Their code is given for each section.
-/

namespace LineCompiler.Builtin

/-- A line of code behind a tab. -/
def line (text : String) : String :=
  "\t" ++ text ++ "\n"

/-- The node for no value. -/
def nothing : Node :=
  .ofFixed .null

/-- An argument of one of several types, which is passed in a register. -/
def argument (name : String) (types : List TypeName) (register : String) : Node :=
  .argument (.ofName (.text name))
    (.union (.list (types.map fun type => .sortItself type.sort type.sort))) nothing
      (.text register)

/-- A builtin function with its code for the text section. -/
def function (name : String) (arguments : Node) (code : List String) (isSyscall : Bool) : Node :=
  .function (.ofName (.text name)) arguments (.list [nothing]) nothing
    (.table ["text"] [.list (code.map Node.text)]) (.bare (.truth isSyscall))

/-- Ends the program. -/
def exit : Node :=
  function "exit" (.list [nothing])
    ["exit:\n", line "mov rax, 60", line "mov rdi, 0", line "syscall"]
    false

/-- The code that prints a number: its digits are laid out from the last one backwards. -/
def printNumberCode : List String :=
  ["printi:\n", line "mov     r9, -3689348814741910323", line "sub     rsp, 40",
    line "mov     BYTE [rsp+31], 10", line "lea     rcx, [rsp+30]", ".L2:\n",
    line "mov     rax, rdi", line "lea     r8, [rsp+32]", line "mul     r9",
    line "mov     rax, rdi", line "sub     r8, rcx", line "shr     rdx, 3",
    line "lea     rsi, [rdx+rdx*4]", line "add     rsi, rsi", line "sub     rax, rsi",
    line "add     eax, 48", line "mov     BYTE [rcx], al", line "mov     rax, rdi",
    line "mov     rdi, rdx", line "mov     rdx, rcx", line "sub     rcx, 1",
    line "cmp     rax, 9", line "ja      .L2", line "lea     rax, [rsp+32]",
    line "mov     edi, 1", line "sub     rdx, rax", line "xor     eax, eax",
    line "lea     rsi, [rsp+32+rdx]", line "mov     rdx, r8", line "mov     rax, 1",
    line "syscall", line "add     rsp, 40", line "ret"]

/-- Prints a number. -/
def printNumber : Node :=
  function "printi" (.argumentList (.list [argument "n" [.int, .float, .call] "rsi"]))
    printNumberCode true

/-- Prints a text of a given length. -/
def printText : Node :=
  function "prints"
    (.argumentList
      (.list
        [argument "char_seq" [.str, .char, .call] "rsi", argument "length" [.int, .call] "rdx"]))
    ["prints:\n", line "mov     rax, 1          ; syscall: write",
      line "mov     rdi, 1          ; stdout", line "syscall", line "ret"]
    true

/-- All builtin functions. -/
def functions : List Node :=
  [exit, printNumber, printText]

end LineCompiler.Builtin
