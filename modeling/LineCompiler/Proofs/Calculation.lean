import LineCompiler.Proofs.Assembly.Statements
import LineCompiler.Proofs.Machine.Assembler

/-!
# What an operation computes

The code of an operation loads its operands, computes in registers and stores the result.  Nothing
is written to memory before the store, so the operands are those that memory held before, also if
the result is one of them.

A multiplication has both operands in their places.  In an addition or a subtraction only a name has
a place on the right: a number there takes the place of the left operand, and its own place is left
to a symbol that stands for nothing.  So such an operation computes with the right operand and the
address of that symbol (`operation_stores`).
-/

namespace LineCompiler

open Machine Generate Number

/-- The result of an operation on integers.  A quotient is rounded toward zero. -/
def Arithmetic.eval : Arithmetic → Int → Int → Int
  | .multiply, left, right => left * right
  | .add, left, right => left + right
  | .divide, left, right => left.tdiv right
  | .subtract, left, right => left - right

/-- The register that an operation leaves its result in. -/
def Arithmetic.register : Arithmetic → Register
  | .subtract => .rbx
  | _ => .rax

namespace Machine

/-- Lines that store a number in a cell, and change no other byte of memory. -/
def Stores (platform : Platform) (state : State) (lines : List String) (result : Identifier)
    (value : Int) : Prop :=
  ∃ final, runLines platform state lines = some (.next final) ∧
    final.calls = state.calls ∧
    final.memory.load .quad (platform.address result) = BitVec.ofInt 64 value ∧
    ∀ byte, ¬ Memory.inCell .quad (platform.address result) byte →
      final.memory byte = state.memory byte

variable {platform : Platform} {state : State} {lines : List String} {result : Identifier}

theorem Stores.unique {first second : Int} (hfirst : Stores platform state lines result first)
    (hsecond : Stores platform state lines result second) :
    BitVec.ofInt 64 first = BitVec.ofInt 64 second := by
  obtain ⟨final, hrun, -, hvalue, -⟩ := hfirst
  obtain ⟨other, hother, -, hsame, -⟩ := hsecond
  rw [hrun] at hother
  cases hother
  rw [← hvalue, ← hsame]

/-- Instructions that leave memory alone, and then a store of what they have computed. -/
theorem stores_of_run {steps : List Instruction} {register : Register} {before : State}
    {value : Int} (hrun : run platform state steps = .next before)
    (hmemory : before.memory = state.memory) (hcalls : before.calls = state.calls)
    (hvalue : before.registers register = BitVec.ofInt 64 value) :
    Stores platform state
      ((steps ++ [Instruction.store result ⟨register, .quad⟩]).map Instruction.line)
        result value := by
  let final : State :=
    { before with
      memory := state.memory.store .quad (platform.address result) (BitVec.ofInt 64 value) }
  have hstore : run platform before [.store result ⟨register, .quad⟩] = .next final := by
    rw [run, exec]
    simp only [State.get_quad, hvalue, hmemory]
    rfl
  refine ⟨final, ?_, hcalls, Memory.load_store .., fun byte => Memory.store_apply_of_outside⟩
  rw [runLines_lines, run_append hrun, hstore]

end Machine

/-! ## Operations and their operands -/

namespace Calculation

/-- A number literal that holds an integer of 64 bits, as a number or as its numeral. -/
structure Literal where
  value : Int
  held : Atom
  type : Node
  plain_held : held.plain = integerText value
  low : -2 ^ 63 ≤ value
  high : value < 2 ^ 63

/-- An operand: the content of a name, or a number. -/
inductive Operand where
  | named (name : Identifier)
  | literal (number : Literal)

end Calculation

/-- An operation on two operands, with the variable for its result. -/
structure Calculation where
  operation : Arithmetic
  left : Calculation.Operand
  right : Calculation.Operand
  result : Identifier

namespace Calculation

/-- The node of an operand. -/
def Operand.node : Operand → Node
  | .named name => .ofName name.atom
  | .literal number => .literal .number (.bare number.held) number.type

/-- Whether an operand is a name. -/
def Operand.isNamed : Operand → Bool
  | .named _ => true
  | .literal _ => false

/-- The number that an operand stands for. -/
def Operand.value (platform : Platform) (memory : Memory) : Operand → Int
  | .named name => (memory.load .quad (platform.address name)).toInt
  | .literal number => number.value

/-- The statement of a calculation. -/
def node (calculation : Calculation) : Node :=
  .arithmetic calculation.operation calculation.left.node calculation.right.node
    (.reference .result (.ofName calculation.result.atom))

/-- The result that is asked for. -/
def value (calculation : Calculation) (platform : Platform) (memory : Memory) : Int :=
  calculation.operation.eval (calculation.left.value platform memory)
    (calculation.right.value platform memory)

/-! ## Code -/

/-- What is loaded for an operand. -/
def Operand.source : Operand → Source
  | .named name => .content name
  | .literal number => .immediate number.value

theorem Operand.value_source (platform : Platform) (memory : Memory) (operand : Operand) :
    operand.source.value platform memory .quad =
      BitVec.ofInt 64 (operand.value platform memory) := by
  cases operand with
  | named name => exact BitVec.ofInt_toInt.symm
  | literal number => rfl

theorem operandText_node (operand : Operand) :
    operandText operand.node = .ok (String.ofList operand.source.text) := by
  cases operand with
  | named name => exact congrArg Except.ok (contentOf_atom name)
  | literal number =>
      have hplain : (Node.bare number.held).plain = integerText number.value := number.plain_held
      show Except.ok (Node.bare number.held).plain =
        .ok (String.ofList (integerText number.value).toList)
      rw [hplain, String.ofList_toList]

/-- The symbol in a place without a value. -/
def nothing : Identifier :=
  ⟨'N', "one".toList, by decide, by simp⟩

/-- What stands in the two places of an addition, a subtraction or a division. -/
def places (left right : Operand) : Source × Source :=
  if right.isNamed then (left.source, right.source) else (right.source, .address nothing)

theorem operandTexts_nodes (left right : Operand) :
    operandTexts left.node right.node =
      .ok (String.ofList (places left right).1.text, String.ofList (places left right).2.text) := by
  have htexts : operandTexts left.node right.node =
      .ok (if right.node.isName
        then (String.ofList left.source.text, String.ofList right.source.text)
        else (String.ofList right.source.text, Atom.absent.plain)) := by
    rw [operandTexts, operandText_node, operandText_node]
    rfl
  rw [htexts]
  cases right <;> rfl

/-- The instructions of a calculation up to the store of its result. -/
def steps (calculation : Calculation) : List Instruction :=
  let first := (places calculation.left calculation.right).1
  let second := (places calculation.left calculation.right).2
  match calculation.operation with
  | .multiply =>
      [.load ⟨.rax, .quad⟩ calculation.left.source, .load ⟨.rbx, .quad⟩ calculation.right.source,
        .multiply .quad .rax .rbx]
  | .divide =>
      [.load ⟨.rax, .quad⟩ first, .exclusiveOr .quad .rdx .rdx, .load ⟨.rcx, .quad⟩ second,
        .divide ⟨.rcx, .quad⟩]
  | .add => [.load ⟨.rax, .quad⟩ first, .add ⟨.rax, .quad⟩ second]
  | .subtract => [.load ⟨.rbx, .quad⟩ first, .subtract ⟨.rbx, .quad⟩ second]

/-- The instructions of a calculation. -/
def code (calculation : Calculation) : List Instruction :=
  calculation.steps ++ [.store calculation.result ⟨calculation.operation.register, .quad⟩]

private theorem operationCode_node (calculation : Calculation) :
    ∃ texts, operationCode calculation.operation calculation.left.node calculation.right.node =
        .ok (texts, View.name ⟨calculation.operation.register, .quad⟩) ∧
      texts.map instruction = calculation.steps.map Instruction.line := by
  obtain ⟨operation, left, right, result⟩ := calculation
  have hrax : "mov " ++ View.name ⟨.rax, .quad⟩ ++ ", " = "mov rax, " := by decide
  have hrbx : "mov " ++ View.name ⟨.rbx, .quad⟩ ++ ", " = "mov rbx, " := by decide
  have hrcx : "mov " ++ View.name ⟨.rcx, .quad⟩ ++ ", " = "mov rcx, " := by decide
  cases operation with
  | multiply =>
      have hmultiply : instruction "imul rax, rbx" = (Instruction.multiply .quad .rax .rbx).line :=
        rfl
      refine ⟨["mov rax, " ++ String.ofList left.source.text,
        "mov rbx, " ++ String.ofList right.source.text, "imul rax, rbx"], ?_, ?_⟩
      · rw [operationCode, operandText_node, operandText_node]
        rfl
      · simp only [steps, List.map_cons, List.map_nil, line_load, hrax, hrbx, hmultiply]
  | divide =>
      have hclear : instruction "xor rdx, rdx" = (Instruction.exclusiveOr .quad .rdx .rdx).line :=
        rfl
      have hdivide : instruction "idiv rcx" = (Instruction.divide ⟨.rcx, .quad⟩).line := rfl
      refine ⟨["mov rax, " ++ String.ofList (places left right).1.text, "xor rdx, rdx",
        "mov rcx, " ++ String.ofList (places left right).2.text, "idiv rcx"], ?_, ?_⟩
      · rw [operationCode, operandTexts_nodes]
        rfl
      · simp only [steps, List.map_cons, List.map_nil, line_load, hrax, hrcx, hclear, hdivide]
  | add =>
      have hadd : "add " ++ View.name ⟨.rax, .quad⟩ ++ ", " = "add rax, " := by decide
      refine ⟨["mov rax, " ++ String.ofList (places left right).1.text,
        "add rax, " ++ String.ofList (places left right).2.text], ?_, ?_⟩
      · rw [operationCode, operandTexts_nodes]
        rfl
      · simp only [steps, List.map_cons, List.map_nil, line_load, line_add, hrax, hadd]
  | subtract =>
      have hsubtract : "sub " ++ View.name ⟨.rbx, .quad⟩ ++ ", " = "sub rbx, " := by decide
      refine ⟨["mov rbx, " ++ String.ofList (places left right).1.text,
        "sub rbx, " ++ String.ofList (places left right).2.text], ?_, ?_⟩
      · rw [operationCode, operandTexts_nodes]
        rfl
      · simp only [steps, List.map_cons, List.map_nil, line_load, line_subtract, hrbx, hsubtract]

/-- The generated lines are those of the instructions. -/
theorem statement_node (calculation : Calculation) (names : Names) (label : String)
    (draws : Draws) :
    statement names label draws calculation.node =
      .write draws [inText label (calculation.code.map Instruction.line)] := by
  obtain ⟨texts, htexts, hlines⟩ := calculation.operationCode_node
  have hcode : calculation.code.map Instruction.line =
      (texts ++ ["mov " ++ contentOf (.bare calculation.result.atom) ++ ", " ++
        View.name ⟨calculation.operation.register, .quad⟩]).map instruction := by
    rw [code, List.map_append, List.map_append, hlines, List.map_singleton, List.map_singleton,
      line_store, contentOf_atom]
  have hoperation : Generate.operation label calculation.operation
      calculation.left.node calculation.right.node
      (.reference .result (.ofName calculation.result.atom)) =
        .ok [inText label (calculation.code.map Instruction.line)] := by
    rw [Generate.operation, htexts, hcode]
    rfl
  rw [node, statement, hoperation]
  rfl

/-! ## Runs -/

theorem ofInt_sub (first second : Int) :
    BitVec.ofInt 64 (first - second) = BitVec.ofInt 64 first - BitVec.ofInt 64 second := by
  rw [Int.sub_eq_add_neg, BitVec.ofInt_add, BitVec.ofInt_neg, BitVec.sub_eq_add_neg]

section Words

variable (platform : Platform) (state : State)

/-- What a run of instructions that leaves memory alone gives in a register. -/
def Gives (platform : Platform) (state : State) (instructions : List Instruction)
    (register : Register) (word : Word) : Prop :=
  ∃ final, run platform state instructions = .next final ∧ final.memory = state.memory ∧
    final.calls = state.calls ∧ final.registers register = word

private theorem gives_product {target other : Register} (hne : target ≠ other)
    (first second : Source) :
    Gives platform state
      [.load ⟨target, .quad⟩ first, .load ⟨other, .quad⟩ second, .multiply .quad target other]
      target
      (first.value platform state.memory .quad * second.value platform state.memory .quad) := by
  refine ⟨_, rfl, rfl, rfl, ?_⟩
  refine (State.set_quad _ _ _).trans ?_
  rw [State.get_quad, State.get_quad, State.set_quad, State.set_registers_of_ne hne, State.set_quad,
    State.set_memory]

private theorem gives_sum (register : Register) (first second : Source) :
    Gives platform state [.load ⟨register, .quad⟩ first, .add ⟨register, .quad⟩ second] register
      (first.value platform state.memory .quad + second.value platform state.memory .quad) := by
  refine ⟨_, rfl, rfl, rfl, ?_⟩
  refine (State.set_quad _ _ _).trans ?_
  rw [State.get_set, State.set_memory]

private theorem gives_difference (register : Register) (first second : Source) :
    Gives platform state
      [.load ⟨register, .quad⟩ first, .subtract ⟨register, .quad⟩ second] register
      (first.value platform state.memory .quad - second.value platform state.memory .quad) := by
  refine ⟨_, rfl, rfl, rfl, ?_⟩
  refine (State.set_quad _ _ _).trans ?_
  rw [State.get_set, State.set_memory]

end Words

/-- The numbers in the two places of an addition, a subtraction or a division. -/
def numbers (left right : Operand) (platform : Platform) (memory : Memory) : Int × Int :=
  if right.isNamed then (left.value platform memory, right.value platform memory)
  else (right.value platform memory, (platform.address nothing).toInt)

private theorem value_places (left right : Operand) (platform : Platform) (memory : Memory) :
    (places left right).1.value platform memory .quad =
      BitVec.ofInt 64 (numbers left right platform memory).1 ∧
      (places left right).2.value platform memory .quad =
        BitVec.ofInt 64 (numbers left right platform memory).2 := by
  have hleft := left.value_source platform memory
  have hright := right.value_source platform memory
  have hnothing : (Source.address nothing).value platform memory .quad =
      BitVec.ofInt 64 (platform.address nothing).toInt := by
    rw [BitVec.ofInt_toInt]
    exact BitVec.setWidth_eq _
  by_cases hnamed : right.isNamed = true
  · rw [places, numbers, if_pos hnamed, if_pos hnamed]
    exact ⟨hleft, hright⟩
  · rw [places, numbers, if_neg hnamed, if_neg hnamed]
    exact ⟨hright, hnothing⟩

/-- The number that a calculation computes. -/
def computed (calculation : Calculation) (platform : Platform) (memory : Memory) : Int :=
  match calculation.operation with
  | .multiply => calculation.value platform memory
  | operation =>
      let found := numbers calculation.left calculation.right platform memory
      operation.eval found.1 found.2

/-- **The steps of a calculation** give the number that it computes. -/
theorem gives_steps {calculation : Calculation} (hoperation : calculation.operation ≠ .divide)
    (platform : Platform) (state : State) :
    Gives platform state calculation.steps calculation.operation.register
      (BitVec.ofInt 64 (calculation.computed platform state.memory)) := by
  obtain ⟨operation, left, right, result⟩ := calculation
  obtain ⟨hfirst, hsecond⟩ := value_places left right platform state.memory
  cases operation with
  | divide => exact absurd rfl hoperation
  | multiply =>
      have hgives :=
        gives_product platform state (show Register.rax ≠ .rbx by decide) left.source right.source
      rw [left.value_source, right.value_source, ← BitVec.ofInt_mul] at hgives
      exact hgives
  | add =>
      have hgives := gives_sum platform state .rax (places left right).1 (places left right).2
      rw [hfirst, hsecond, ← BitVec.ofInt_add] at hgives
      exact hgives
  | subtract =>
      have hgives :=
        gives_difference platform state .rbx (places left right).1 (places left right).2
      rw [hfirst, hsecond, ← ofInt_sub] at hgives
      exact hgives

/-! ## What is stored -/

/-- Whether both operands have their places in the code. -/
def IsComplete (calculation : Calculation) : Prop :=
  calculation.operation = .multiply ∨ calculation.right.isNamed = true

private theorem computed_of_isComplete {calculation : Calculation}
    (hcomplete : calculation.IsComplete) (platform : Platform) (memory : Memory) :
    calculation.computed platform memory = calculation.value platform memory := by
  obtain ⟨operation, left, right, result⟩ := calculation
  cases operation with
  | multiply => rfl
  | _ =>
      have hnamed : right.isNamed = true := hcomplete.resolve_left (by rintro ⟨⟩)
      simp only [computed, numbers, if_pos hnamed, value]

theorem stores_computed {calculation : Calculation} (hoperation : calculation.operation ≠ .divide)
    (platform : Platform) (state : State) :
    Stores platform state (calculation.code.map Instruction.line) calculation.result
      (calculation.computed platform state.memory) := by
  obtain ⟨before, hrun, hmemory, hcalls, hvalue⟩ := gives_steps hoperation platform state
  exact stores_of_run hrun hmemory hcalls hvalue

/-- A platform on which all symbols lie at one address. -/
def onePlace (address : Word) : Platform where
  address _ := address
  kernel := ⟨fun _ _ => 0, fun _ memory => memory, fun _ _ => (0, 0)⟩
  undefinedFlags := ⟨false, false, false⟩

/-- A state in which all is zero. -/
def allZero : State where
  registers _ := 0
  flags := ⟨false, false, false⟩
  memory _ := 0
  calls := []

private theorem number_allZero (address : Word) (count : Nat) :
    allZero.memory.number address count = 0 := by
  induction count generalizing address with
  | zero => rfl
  | succ count ih =>
      rw [Memory.number, ih]
      rfl

theorem value_allZero (operand : Operand) (first second : Word) :
    operand.value (onePlace first) allZero.memory =
      operand.value (onePlace second) allZero.memory := by
  have hzero : ∀ address, allZero.memory.load .quad address = 0 := by
    intro address
    rw [Memory.load, number_allZero]
    rfl
  cases operand with
  | named name => simp only [Operand.value, hzero]
  | literal number => rfl

theorem computed_of_not_isComplete {calculation : Calculation}
    (hincomplete : ¬ calculation.IsComplete) (platform : Platform) (memory : Memory) :
    calculation.computed platform memory =
      calculation.operation.eval (calculation.right.value platform memory)
        (platform.address nothing).toInt := by
  obtain ⟨operation, left, right, result⟩ := calculation
  obtain ⟨hmultiply, hnamed⟩ := not_or.mp hincomplete
  cases operation with
  | multiply => exact absurd rfl hmultiply
  | _ => simp only [computed, numbers, if_neg hnamed]

/-- Sums and differences with different words are different. -/
theorem eq_of_ofInt_eval {operation : Arithmetic} (hmultiply : operation ≠ .multiply)
    (hdivide : operation ≠ .divide) {number : Int} {first second : Word}
    (heq : BitVec.ofInt 64 (operation.eval number first.toInt) =
      BitVec.ofInt 64 (operation.eval number second.toInt)) :
    first = second := by
  cases operation with
  | multiply => exact absurd rfl hmultiply
  | divide => exact absurd rfl hdivide
  | add =>
      simp only [Arithmetic.eval, BitVec.ofInt_add, BitVec.ofInt_toInt] at heq
      exact (BitVec.add_right_inj _).mp heq
  | subtract =>
      simp only [Arithmetic.eval, ofInt_sub, BitVec.ofInt_toInt] at heq
      exact (BitVec.sub_right_inj _).mp heq

/-- Where the right operand has no place, the symbol in its place decides. -/
theorem exists_not_stores {calculation : Calculation} (hoperation : calculation.operation ≠ .divide)
    (hincomplete : ¬ calculation.IsComplete) :
    ∃ platform state,
      ¬ Stores platform state (calculation.code.map Instruction.line) calculation.result
        (calculation.value platform state.memory) := by
  by_contra hnone
  simp only [not_exists, not_not] at hnone
  have hright := value_allZero calculation.right 0 1
  -- What is asked for is the same on both platforms, and what is computed is not.
  have hsame : calculation.value (onePlace 0) allZero.memory =
      calculation.value (onePlace 1) allZero.memory := by
    rw [value, value, value_allZero calculation.left 0 1, hright]
  have hword : ∀ address, BitVec.ofInt 64 (calculation.computed (onePlace address) allZero.memory) =
      BitVec.ofInt 64 (calculation.value (onePlace address) allZero.memory) := fun address =>
    (stores_computed hoperation (onePlace address) allZero).unique
      (hnone (onePlace address) allZero)
  have hcomputed : BitVec.ofInt 64 (calculation.computed (onePlace 0) allZero.memory) =
      BitVec.ofInt 64 (calculation.computed (onePlace 1) allZero.memory) :=
    calc BitVec.ofInt 64 (calculation.computed (onePlace 0) allZero.memory)
      _ = BitVec.ofInt 64 (calculation.value (onePlace 0) allZero.memory) := hword 0
      _ = BitVec.ofInt 64 (calculation.value (onePlace 1) allZero.memory) := by rw [hsame]
      _ = BitVec.ofInt 64 (calculation.computed (onePlace 1) allZero.memory) := (hword 1).symm
  rw [computed_of_not_isComplete hincomplete, computed_of_not_isComplete hincomplete, hright]
    at hcomputed
  have hmultiply : calculation.operation ≠ .multiply := fun heq => hincomplete (Or.inl heq)
  have hplaces : (0 : Word) = 1 := eq_of_ofInt_eval hmultiply hoperation hcomputed
  exact absurd hplaces (by decide)

/-- **What an operation stores.**  The lines of a multiplication, an addition or a subtraction stand
together, under whatever label and with whatever draws.  From every state of the machine they store
one number in the variable for the result, modulo `2 ^ 64`, and change no other byte of memory.
This number is the result that was asked for, on every platform and from every state, exactly if the
operation is a multiplication or has a name for its right operand. -/
theorem operation_stores (calculation : Calculation)
    (hoperation : calculation.operation ≠ .divide) :
    ∃ lines : List String,
      (∀ names label draws,
        statement names label draws calculation.node = .write draws [inText label lines]) ∧
      (∀ platform state,
        Stores platform state lines calculation.result
          (calculation.computed platform state.memory)) ∧
      ((∀ platform state,
        Stores platform state lines calculation.result (calculation.value platform state.memory)) ↔
        calculation.operation = .multiply ∨ calculation.right.isNamed = true) := by
  refine ⟨calculation.code.map Instruction.line, calculation.statement_node,
    stores_computed hoperation, ?_, ?_⟩
  · intro hstores
    by_contra hincomplete
    obtain ⟨platform, state, hnot⟩ := exists_not_stores hoperation hincomplete
    exact hnot (hstores platform state)
  · intro hcomplete platform state
    have hstores := stores_computed hoperation platform state
    rwa [computed_of_isComplete hcomplete] at hstores

/-- The names of operands and results. -/
def nameX : Identifier := .ofLetter 'x' rfl

@[inherit_doc nameX]
def nameY : Identifier := .ofLetter 'y' rfl

@[inherit_doc nameX]
def nameZ : Identifier := .ofLetter 'z' rfl

/-- The least number of 64 bits. -/
def least : Literal where
  value := -9223372036854775808
  held := .integer (-9223372036854775808)
  type := .ofType .int
  plain_held := rfl
  low := by decide
  high := by decide

/-- The least number less `x`, stored in `x`. -/
def reflected : Calculation :=
  ⟨.subtract, .literal least, .named nameX, nameX⟩

/-- The variable for a result may be an operand. -/
theorem operation_stores_reflected :
    reflected.operation ≠ .divide ∧
      ∃ lines : List String,
        (∀ names label draws,
          statement names label draws reflected.node = .write draws [inText label lines]) ∧
        ∀ platform state, Stores platform state lines nameX
          (-9223372036854775808 - (state.memory.load .quad (platform.address nameX)).toInt) := by
  have hoperation : reflected.operation ≠ .divide := by decide
  obtain ⟨lines, hlines, -, hstores⟩ := operation_stores reflected hoperation
  exact ⟨hoperation, lines, hlines, hstores.mpr (Or.inr rfl)⟩

/-- A platform with `x` and `y` in front, and all other symbols behind them. -/
def spread : Platform where
  address name := if name.first = 'x' then 0 else if name.first = 'y' then 8 else 16
  kernel := ⟨fun _ _ => 0, fun _ memory => memory, fun _ _ => (0, 0)⟩
  undefinedFlags := ⟨false, false, false⟩

/-- A state that has two numbers in front. -/
def holding (first second : Word) : State :=
  { allZero with memory := (allZero.memory.store .quad 0 first).store .quad 8 second }

/-- The number five. -/
def five : Literal where
  value := 5
  held := .integer 5
  type := .ofType .int
  plain_held := rfl
  low := by decide
  high := by decide

/-- The sum of `x` and five. -/
def sumWithFive : Calculation :=
  ⟨.add, .named nameX, .literal five, nameZ⟩

/-- The sum of seven and five is asked for, and twenty-one is stored. -/
theorem sumWithFive_loses_seven :
    let lines := ["\tmov rax, 5\n", "\tadd rax, None\n", "\tmov [z], rax\n"]
    statement {} mainLabel (.ofList []) sumWithFive.node =
      .write (.ofList []) [inText mainLabel lines] ∧
      sumWithFive.value spread (holding 7 0).memory = 12 ∧
      Stores spread (holding 7 0) lines sumWithFive.result 21 ∧
      ¬ Stores spread (holding 7 0) lines sumWithFive.result 12 := by
  have hlines : sumWithFive.code.map Instruction.line =
      ["\tmov rax, 5\n", "\tadd rax, None\n", "\tmov [z], rax\n"] := by decide +kernel
  have hstores :=
    stores_computed (show sumWithFive.operation ≠ .divide by decide) spread (holding 7 0)
  rw [hlines, show sumWithFive.computed spread (holding 7 0).memory = 21 by decide +kernel]
    at hstores
  refine ⟨?_, by decide +kernel, hstores, fun hother => ?_⟩
  · rw [statement_node, hlines]
  · exact absurd (hstores.unique hother) (by decide)

end Calculation

end LineCompiler
