import LineCompiler.Proofs.Assembly.Occurrence
import LineCompiler.Proofs.Machine.Assembler

/-!
# What a system call does

The code of a system call loads its number and its arguments one by one, makes the call, and stores
what is returned.  No load reads a register or writes to memory, and no two of them write to the
same register.  So the system sees all operands as they were before the first load, whatever they
are and however often a name occurs among them (`run_code`), and the only memory that the code
itself changes is the variable for the error.
-/

namespace LineCompiler

open Machine Generate Number

/-! ## Operands -/

namespace SystemCall

/-- The number of a system call: an integer, or the content of a name. -/
inductive Number where
  | integer (value : Int)
  | named (name : Identifier)

/-- An argument of a system call. -/
inductive Argument where
  | integer (value : Int)
  | named (name : Identifier)
  | dereferenced (name : Identifier)

end SystemCall

/-- A system call.  There are registers for six arguments. -/
structure SystemCall where
  number : SystemCall.Number
  arguments : List SystemCall.Argument
  error : Identifier
  arguments_le : arguments.length ≤ 6

namespace SystemCall

/-- The node of a number. -/
def Number.node : Number → Node
  | .integer value => .bare (.integer value)
  | .named name => .ofName name.atom

/-- The node of an argument. -/
def Argument.node : Argument → Node
  | .integer value => .bare (.integer value)
  | .named name => .bare name.atom
  | .dereferenced name => .reference .dereference (.ofName name.atom)

/-- The statement of a system call. -/
def node (call : SystemCall) : Node :=
  .syscall call.number.node (.list (call.arguments.map Argument.node)) (.ofName call.error.atom)

/-- Whether a name is that of a constant or a variable. -/
def isContent (names : Names) (name : Identifier) : Bool :=
  (names.constants ++ names.vars).contains (String.ofList name.text)

/-- The value of a number. -/
def Number.value (platform : Platform) (memory : Memory) : Number → Word
  | .integer value => BitVec.ofInt 64 value
  | .named name => memory.load .quad (platform.address name)

/-- The value of an argument: that of an integer, the content of a constant, a variable or a
dereferenced name, or the address of another name. -/
def Argument.value (names : Names) (platform : Platform) (memory : Memory) : Argument → Word
  | .integer value => BitVec.ofInt 64 value
  | .named name =>
      if isContent names name then memory.load .quad (platform.address name)
        else platform.address name
  | .dereferenced name => memory.load .quad (platform.address name)

/-! ## Code -/

/-- What is loaded for a number. -/
def Number.source : Number → Source
  | .integer value => .immediate value
  | .named name => .content name

/-- What is loaded for an argument. -/
def Argument.source (names : Names) : Argument → Source
  | .integer value => .immediate value
  | .named name => if isContent names name then .content name else .address name
  | .dereferenced name => .content name

theorem Number.value_source (platform : Platform) (memory : Memory) (number : Number) :
    number.source.value platform memory .quad = number.value platform memory := by
  cases number <;> rfl

theorem Argument.value_source (names : Names) (platform : Platform) (memory : Memory)
    (argument : Argument) :
    (argument.source names).value platform memory .quad = argument.value names platform memory := by
  cases argument with
  | integer value => rfl
  | named name =>
      by_cases hcontent : isContent names name = true
      · rw [source, value, if_pos hcontent, if_pos hcontent]
        rfl
      · rw [source, value, if_neg hcontent, if_neg hcontent]
        exact BitVec.setWidth_eq _
  | dereferenced name => rfl

/-- The loads of arguments. -/
def loads (names : Names) (registers : List Register) (arguments : List Argument) :
    List Instruction :=
  List.zipWith (fun register argument => .load ⟨register, .quad⟩ (argument.source names))
    registers arguments

/-- The instructions of a system call. -/
def code (names : Names) (call : SystemCall) : List Instruction :=
  .load ⟨.rax, .quad⟩ call.number.source ::
    (loads names Machine.argumentRegisters call.arguments ++
      [.call, .store call.error ⟨.rax, .quad⟩])

private theorem numberText_node (number : Number) :
    numberText number.node = String.ofList number.source.text := by
  cases number with
  | integer value =>
      show integerText value = String.ofList (integerText value).toList
      rw [String.ofList_toList]
  | named name => exact contentOf_atom name

private theorem argumentText_node (names : Names) (argument : Argument) :
    argumentText names argument.node = .ok (String.ofList (argument.source names).text) := by
  cases argument with
  | integer value =>
      show Except.ok (integerText value) = .ok (String.ofList (integerText value).toList)
      rw [String.ofList_toList]
  | named name =>
      have hstored : isStored names (.bare name.atom) = isContent names name := rfl
      rw [Argument.node, argumentText, hstored, Argument.source]
      · split
        · exact congrArg Except.ok (contentOf_atom name)
        · rfl
      · rintro target ⟨⟩
  | dereferenced name => exact congrArg Except.ok (contentOf_atom name)

private theorem lines_loads (names : Names) (registers : List Register)
    (arguments : List Argument) :
    (List.zipWith (fun register text => "mov " ++ register ++ ", " ++ text)
        (registers.map fun register => View.name ⟨register, .quad⟩)
        (arguments.map fun argument =>
          String.ofList (argument.source names).text)).map instruction =
      (loads names registers arguments).map Instruction.line := by
  simp only [loads, List.zipWith_map, List.map_zipWith, line_load]

/-- The generated lines are those of the instructions. -/
theorem lines_code (names : Names) (call : SystemCall) :
    ∃ texts, callLines names call.number.node (.list (call.arguments.map Argument.node))
      (.ofName call.error.atom) =
        .ok texts ∧ texts.map instruction = (call.code names).map Instruction.line := by
  have htexts : (call.arguments.map Argument.node).mapM (argumentText names) =
      .ok (call.arguments.map fun argument => String.ofList (argument.source names).text) := by
    induction call.arguments with
    | nil => rfl
    | cons argument rest ih =>
        rw [List.map_cons, List.mapM_cons, argumentText_node, ih]
        rfl
  refine ⟨("mov rax, " ++ numberText call.number.node) ::
    (List.zipWith (fun register text => "mov " ++ register ++ ", " ++ text)
        Generate.argumentRegisters
        (call.arguments.map fun argument => String.ofList (argument.source names).text) ++
      ["syscall", "mov " ++ contentOf (.bare call.error.atom) ++ ", rax"]), ?_, ?_⟩
  · show (do
      let texts ← (call.arguments.map Argument.node).mapM (argumentText names)
      return _ : Except Fault (List String)) = _
    rw [htexts]
    rfl
  · have hregisters : Generate.argumentRegisters =
        Machine.argumentRegisters.map fun register => View.name ⟨register, .quad⟩ := rfl
    have hcall : instruction "syscall" = Instruction.line .call := rfl
    have hnumber : "mov " ++ View.name ⟨.rax, .quad⟩ ++ ", " = "mov rax, " := by decide
    have herror : "mov " ++ String.ofList (contentText call.error) ++ ", " ++
        View.name ⟨.rax, .quad⟩ =
        "mov " ++ String.ofList (contentText call.error) ++ ", rax" := by
      rw [String.append_assoc]
      rfl
    simp only [code, List.map_cons, List.map_append, List.map_nil, hregisters, lines_loads,
      line_load, line_store, numberText_node, contentOf_atom, hcall, hnumber, herror]

/-! ## Runs -/

variable {platform : Platform}

/-- Loads of arguments give each register its value in the memory before them, and change nothing
else. -/
theorem run_loads (names : Names) {registers : List Register} (hnodup : registers.Nodup)
    {arguments : List Argument} (hlength : arguments.length ≤ registers.length) (state : State) :
    ∃ loaded, run platform state (loads names registers arguments) = .next loaded ∧
      loaded.memory = state.memory ∧ loaded.calls = state.calls ∧
      (∀ register ∉ registers, loaded.registers register = state.registers register) ∧
      (registers.map loaded.registers).take arguments.length =
        arguments.map (Argument.value names platform state.memory) := by
  induction arguments generalizing registers state with
  | nil => exact ⟨state, by rw [loads, List.zipWith_nil_right, run], rfl, rfl, fun _ _ => rfl, rfl⟩
  | cons argument arguments ih =>
      cases registers with
      | nil => exact absurd hlength (by simp)
      | cons register registers =>
          obtain ⟨hregister, hnodup⟩ := List.nodup_cons.mp hnodup
          obtain ⟨loaded, hrun, hmemory, hcalls, hothers, hvalues⟩ :=
            ih hnodup (Nat.le_of_succ_le_succ hlength)
            (state.set ⟨register, .quad⟩
              ((argument.source names).value platform state.memory .quad))
          rw [State.set_memory] at hmemory hvalues
          refine ⟨loaded, hrun, hmemory, hcalls, fun other hother => ?_, ?_⟩
          · rw [List.mem_cons, not_or] at hother
            rw [hothers other hother.2]
            exact State.set_registers_of_ne hother.1
          · -- No later load writes to this register.
            have hfirst : loaded.registers register =
                argument.value names platform state.memory := by
              rw [hothers register hregister, State.set_quad, Argument.value_source]
            rw [List.map_cons, List.length_cons, List.take_succ_cons, hvalues, hfirst,
              List.map_cons]

/-- **The code of a system call** makes one call, with all operands as they are in the memory before
it, and stores what is returned. -/
theorem run_code (names : Names) (call : SystemCall) (state : State) :
    ∃ made final, run platform state (call.code names) = .next final ∧
      final.calls = state.calls ++ [made] ∧
      made.number = call.number.value platform state.memory ∧
      made.arguments.take call.arguments.length =
        call.arguments.map (Argument.value names platform state.memory) ∧
      final.memory =
        (platform.kernel.memory (state.calls ++ [made]) state.memory).store .quad
          (platform.address call.error)
          (platform.kernel.returned (state.calls ++ [made]) state.memory) := by
  obtain ⟨loaded, hrun, hmemory, hcalls, hothers, hvalues⟩ := run_loads names
    (show Machine.argumentRegisters.Nodup by decide) call.arguments_le
    (state.set ⟨.rax, .quad⟩ (call.number.source.value platform state.memory .quad))
  rw [State.set_memory] at hmemory hvalues
  rw [State.set_calls] at hcalls
  refine ⟨loaded.call, _, run_append hrun _, ?_, ?_, hvalues, ?_⟩
  · show loaded.calls ++ [loaded.call] = _
    rw [hcalls]
  · show loaded.registers .rax = _
    rw [hothers .rax (by decide), State.set_quad, Number.value_source]
  · have hreturned : (loaded.afterCall platform.kernel).get ⟨.rax, .quad⟩ =
        platform.kernel.returned (loaded.calls ++ [loaded.call]) loaded.memory :=
      State.get_quad _ _
    show (platform.kernel.memory (loaded.calls ++ [loaded.call]) loaded.memory).store .quad
      (platform.address call.error) ((loaded.afterCall platform.kernel).get ⟨.rax, .quad⟩) = _
    rw [hreturned, hcalls, hmemory]

/-! ## System calls of a program -/

private theorem generates_node (call : SystemCall) : Generates call.node := by
  have hlength : (call.arguments.map Argument.node).length ≤ Syscall.maxArguments := by
    rw [List.length_map]
    exact call.arguments_le
  refine generates_syscall call.number.node call.error.atom hlength fun node hnode => ?_
  obtain ⟨argument, -, rfl⟩ := List.mem_map.mp hnode
  cases argument with
  | integer value => exact Or.inl ⟨_, rfl⟩
  | named name => exact Or.inl ⟨_, rfl⟩
  | dereferenced name => exact Or.inr ⟨_, rfl⟩

/-- **A system call passes its operands as they were before it.**  The lines that are generated for
a system call anywhere in a program, under whatever label and with whatever draws, stand one behind
the other in the text section.  From every state of the machine they make one call: its number and
its arguments are those of the statement, evaluated in the memory that the lines started with, and
nothing was written to this memory before the call.  Afterwards the variable for the error holds
what the call has returned, and every other byte is as the call has left it. -/
theorem lines_make_call (program : Program) (call : SystemCall)
    (hcall : call.node ∈ Node.walkAll program.statements) :
    ∃ lines : List String,
      (∀ label draws, statement program.names label draws call.node =
        .write (draws.skip 1) (lines.map fun line => inText label [line])) ∧
      (∀ draws, (Generate.program draws program).fault = none →
        ∃ label, lines <:+:
          linesUnder label (Sections.apply {} (Generate.program draws program).writes).text) ∧
      ∀ (platform : Platform) (state : State), ∃ made final,
        runLines platform state lines = some (.next final) ∧
        final.calls = state.calls ++ [made] ∧
        made.number = call.number.value platform state.memory ∧
        made.arguments.take call.arguments.length =
          call.arguments.map (Argument.value program.names platform state.memory) ∧
        final.memory.load .quad (platform.address call.error) =
          platform.kernel.returned final.calls state.memory ∧
        ∀ byte, ¬ Memory.inCell .quad (platform.address call.error) byte →
          final.memory byte = platform.kernel.memory final.calls state.memory byte := by
  obtain ⟨texts, htexts, hlines⟩ := lines_code program.names call
  have hown : ∀ stream position,
      ownLines program.names stream position call.node = texts.map instruction := by
    intro stream position
    rw [ownLines, node, ownCode, htexts]
    rfl
  refine ⟨texts.map instruction, fun label draws => ?_, fun draws hok => ?_,
    fun platform state => ?_⟩
  · obtain ⟨code, hcode, heq⟩ := syscall_of_fault (call.generates_node program.names label draws)
    rw [htexts] at hcode
    cases hcode
    rw [List.map_map]
    exact heq
  · obtain ⟨label, hwithin⟩ := ownLines_infix_linesUnder hok rfl hcall
    refine ⟨label, ?_⟩
    rw [← hown draws.stream draws.taken]
    exact hwithin draws.stream draws.taken
  · obtain ⟨made, final, hrun, hcalls, hnumber, harguments, hmemory⟩ :=
      @run_code platform program.names call state
    refine ⟨made, final, ?_, hcalls, hnumber, harguments, ?_, fun byte hbyte => ?_⟩
    · rw [hlines, runLines_lines, hrun]
    · rw [hmemory, hcalls, Memory.load_store]
    · rw [hmemory, hcalls, Memory.store_apply_of_outside hbyte]

/-- The variable for the error of the call below. -/
def status : Identifier := .ofLetter 'e' rfl

/-- A name that is not declared. -/
def buffer : Identifier := .ofLetter 'p' rfl

/-- A call with six arguments, among them the variable for its own error, twice. -/
def sixArguments : SystemCall where
  number := .named status
  arguments :=
    [.integer (-1), .named status, .named buffer, .dereferenced status,
      .dereferenced buffer, .integer 6]
  error := status
  arguments_le := by decide

/-- A program with this call in a block. -/
def callInBlock : Program where
  statements := [.ifElse (.compare (.ofName status.atom) (.ofName buffer.atom) (.relation .smaller))
    (.list []) (.list [sixArguments.node])]
  names := { vars := ["e"] }

/-- The call in the block, with all its operands. -/
theorem lines_make_call_callInBlock :
    sixArguments.node ∈ Node.walkAll callInBlock.statements ∧
      ∃ lines : List String,
        (∀ label draws, statement callInBlock.names label draws sixArguments.node =
          .write (draws.skip 1) (lines.map fun line => inText label [line])) ∧
        ∀ (platform : Platform) (state : State), ∃ made final,
          let content := fun name => state.memory.load .quad (platform.address name)
          runLines platform state lines = some (.next final) ∧
          final.calls = state.calls ++ [made] ∧
          made.number = content status ∧
          made.arguments.take 6 =
            [-1, content status, platform.address buffer, content status, content buffer, 6] := by
  have hcall : sixArguments.node ∈ Node.walkAll callInBlock.statements :=
    List.mem_cons_of_mem _ (List.mem_cons_self ..)
  obtain ⟨lines, hlines, -, hrun⟩ := lines_make_call callInBlock sixArguments hcall
  refine ⟨hcall, lines, hlines, fun platform state => ?_⟩
  obtain ⟨made, final, hnext, hcalls, hnumber, harguments, -⟩ := hrun platform state
  exact ⟨made, final, hnext, hcalls, hnumber, harguments⟩

end SystemCall

end LineCompiler
