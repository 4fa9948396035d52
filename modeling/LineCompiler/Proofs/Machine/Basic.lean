import LineCompiler.Proofs.Machine.Memory
import LineCompiler.Proofs.Token.Identifier

/-!
# A machine for generated code

The machine has the registers and the instructions that the code of operations, system calls and
conditionals consists of.  It works as the processors for this code do: the width of an operation is
that of its register, a write to the lower half of a register clears the upper half, and a
comparison sets the flags that the jumps look at.

What the machine leaves open is given by a `Platform`: where the symbols lie, what the system does
with a call, and the flags that a multiplication or a division leaves behind.
-/

namespace LineCompiler

/-- Whether two numbers compare as a relation says. -/
def Relation.holds : Relation → Int → Int → Bool
  | .equal, left, right => left = right
  | .notEqual, left, right => left ≠ right
  | .greater, left, right => right < left
  | .greaterEqual, left, right => right ≤ left
  | .smaller, left, right => left < right
  | .smallerEqual, left, right => left ≤ right

namespace Machine

/-! ## States -/

/-- The registers. -/
inductive Register where
  | rax | rbx | rcx | rdx | rsi | rdi | r8 | r9 | r10 | r11
  deriving DecidableEq

/-- A register or its lower half. -/
structure View where
  register : Register
  width : Width
  deriving DecidableEq

/-- The flags that jumps look at. -/
structure Flags where
  zero : Bool
  sign : Bool
  overflow : Bool
  deriving DecidableEq

/-- A system call: the content of its registers. -/
structure Call where
  number : Word
  arguments : List Word
  deriving DecidableEq

/-- A state of the machine. -/
structure State where
  registers : Register → Word
  flags : Flags
  memory : Memory
  /-- The system calls made so far. -/
  calls : List Call

/-- What the system does with a call, given all calls up to this one and the memory. -/
structure Kernel where
  returned : List Call → Memory → Word
  memory : List Call → Memory → Memory
  /-- The content of `rcx` and `r11`, which do not outlive a call. -/
  scratch : List Call → Memory → Word × Word

/-- What the machine leaves open. -/
structure Platform where
  /-- The address of a symbol; two symbols may lie at one place or overlap. -/
  address : Identifier → Word
  kernel : Kernel
  /-- The flags after an instruction that leaves them undefined. -/
  undefinedFlags : Flags

/-- The content of a register, as far as the view goes. -/
def State.get (state : State) (view : View) : BitVec view.width.bits :=
  (state.registers view.register).setWidth view.width.bits

/-- Writes a register; the upper half is cleared if the view does not have it. -/
def State.set (state : State) (view : View) (value : BitVec view.width.bits) : State :=
  { state with
    registers := fun register =>
      if register = view.register then value.setWidth 64 else state.registers register }

section Set

variable {state : State} {view : View} {value : BitVec view.width.bits}

@[simp] theorem State.set_memory : (state.set view value).memory = state.memory := rfl

@[simp] theorem State.set_flags : (state.set view value).flags = state.flags := rfl

@[simp] theorem State.set_calls : (state.set view value).calls = state.calls := rfl

theorem State.set_registers_of_ne {register : Register} (hne : register ≠ view.register) :
    (state.set view value).registers register = state.registers register :=
  if_neg hne

@[simp] theorem State.get_set : (state.set view value).get view = value := by
  have hwidth : view.width.bits ≤ 64 := by
    cases view.width <;> decide
  simp [State.get, State.set, hwidth]

@[simp] theorem State.get_quad (state : State) (register : Register) :
    state.get ⟨register, .quad⟩ = state.registers register :=
  BitVec.setWidth_eq _

theorem State.set_quad (state : State) (register : Register) (value : Word) :
    (state.set ⟨register, .quad⟩ value).registers register = value := by
  have hget := @State.get_set state ⟨register, .quad⟩ value
  rwa [State.get_quad] at hget

end Set

/-! ## Flags -/

/-- The flags of a result, where `overflow` says whether its sign is wrong. -/
def Flags.ofResult {bits : Nat} (result : BitVec bits) (overflow : Bool) : Flags where
  zero := result = 0
  sign := result.msb
  overflow := overflow

/-- The flags of a comparison. -/
def Flags.ofComparison {bits : Nat} (left right : BitVec bits) : Flags :=
  .ofResult (left - right) (left.ssubOverflow right)

/-- Whether a jump is taken that is to be taken if the compared numbers are in a relation. -/
def Flags.meets (flags : Flags) : Relation → Bool
  | .equal => flags.zero
  | .notEqual => !flags.zero
  | .greater => !flags.zero && flags.sign == flags.overflow
  | .greaterEqual => flags.sign == flags.overflow
  | .smaller => flags.sign != flags.overflow
  | .smallerEqual => flags.zero || flags.sign != flags.overflow

private theorem sub_eq_zero_iff_toInt {bits : Nat} (left right : BitVec bits) :
    left - right = 0 ↔ left.toInt = right.toInt := by
  rw [BitVec.toInt_inj]
  constructor
  · intro hzero
    have hsum := BitVec.sub_add_cancel left right
    rw [hzero] at hsum
    simpa using hsum.symm
  · rintro rfl
    exact BitVec.sub_self left

/-- The sign of a difference, set right where it overflows, says which number is smaller. -/
theorem msb_sub_bne_ssubOverflow {bits : Nat} (hbits : 0 < bits) (left right : BitVec bits) :
    ((left - right).msb != left.ssubOverflow right) = decide (left.toInt < right.toInt) := by
  obtain ⟨half, hhalf⟩ : ∃ half : Int, (2 : Int) ^ (bits - 1) = half := ⟨_, rfl⟩
  have hall : ((2 ^ bits : Nat) : Int) = 2 * half := by
    rw [← hhalf, Int.natCast_pow, Int.mul_comm, ← Int.pow_succ, Nat.succ_eq_add_one,
      Nat.sub_add_cancel hbits]
    rfl
  have hleftLow := BitVec.le_toInt left
  have hleftHigh := @BitVec.toInt_lt bits left
  have hrightLow := BitVec.le_toInt right
  have hrightHigh := @BitVec.toInt_lt bits right
  rw [BitVec.msb_eq_toInt, BitVec.toInt_sub, BitVec.ssubOverflow]
  rw [hhalf] at hleftLow hleftHigh hrightLow hrightHigh ⊢
  generalize left.toInt = x at *
  generalize right.toInt = y at *
  -- A difference beyond the range comes out with the wrong sign, one modulus away.
  by_cases hhigh : half ≤ x - y
  · have hmod : (x - y).bmod (2 ^ bits) = x - y - 2 * half := by
      rw [← Int.sub_bmod_right, hall]
      exact Int.bmod_eq_of_le_mul_two (by omega) (by omega)
    have hsign : x - y - 2 * half < 0 := by omega
    have hless : ¬x < y := by omega
    simp [hmod, hsign, hhigh, hless]
  · by_cases hlow : x - y < -half
    · have hmod : (x - y).bmod (2 ^ bits) = x - y + 2 * half := by
        rw [← Int.add_bmod_right, hall]
        exact Int.bmod_eq_of_le_mul_two (by omega) (by omega)
      have hsign : ¬x - y + 2 * half < 0 := by omega
      have hless : x < y := by omega
      simp [hmod, hsign, hlow, hless]
    · have hmod : (x - y).bmod (2 ^ bits) = x - y :=
        Int.bmod_eq_of_le_mul_two (by omega) (by omega)
      have hsign : x - y < 0 ↔ x < y := by omega
      simp [hmod, hsign, hhigh, hlow]

/-- **A jump after a comparison** is taken exactly if the signed numbers compare as it says. -/
theorem Flags.meets_ofComparison {bits : Nat} (hbits : 0 < bits) (left right : BitVec bits)
    (relation : Relation) :
    (Flags.ofComparison left right).meets relation = relation.holds left.toInt right.toInt := by
  have hzero := sub_eq_zero_iff_toInt left right
  have hless := msb_sub_bne_ssubOverflow hbits left right
  have hnotLess : ((left - right).msb == left.ssubOverflow right) =
      decide (right.toInt ≤ left.toInt) := by
    have hnot : ∀ first second : Bool, (first == second) = !(first != second) := by decide
    rw [hnot, hless, ← decide_not, decide_eq_decide, Int.not_lt]
  cases relation with
  | equal => simp only [meets, ofComparison, ofResult, Relation.holds, hzero]
  | notEqual => simp only [meets, ofComparison, ofResult, Relation.holds, hzero, decide_not]
  | greater =>
      simp only [meets, ofComparison, ofResult, Relation.holds, hzero, hnotLess, ← decide_not,
        ← Bool.decide_and, decide_eq_decide]
      omega
  | greaterEqual => simp only [meets, ofComparison, ofResult, Relation.holds, hnotLess]
  | smaller => simp only [meets, ofComparison, ofResult, Relation.holds, hless]
  | smallerEqual =>
      simp only [meets, ofComparison, ofResult, Relation.holds, hzero, hless, ← Bool.decide_or,
        decide_eq_decide]
      omega

/-! ## Instructions -/

/-- What an instruction can take besides registers: a number, the content of a symbol, or its
address. -/
inductive Source where
  | immediate (value : Int)
  | content (symbol : Identifier)
  | address (symbol : Identifier)

/-- The instructions. -/
inductive Instruction where
  | load (target : View) (source : Source)
  | store (symbol : Identifier) (source : View)
  | add (target : View) (source : Source)
  | subtract (target : View) (source : Source)
  | multiply (width : Width) (target source : Register)
  | exclusiveOr (width : Width) (target source : Register)
  /-- Divides by a register.  The dividend is in two registers. -/
  | divide (divisor : View)
  | compare (left : View) (right : Source)
  | compareContent (symbol : Identifier) (right : View)
  | jump (relation : Relation) (label : Identifier)
  | call

/-- What an instruction comes to. -/
inductive Outcome where
  | next (state : State)
  | jumped (label : Identifier) (state : State)
  /-- A division without a quotient. -/
  | divideError

/-- The value of a source. -/
def Source.value (platform : Platform) (memory : Memory) (width : Width) :
    Source → BitVec width.bits
  | .immediate value => BitVec.ofInt width.bits value
  | .content symbol => memory.load width (platform.address symbol)
  | .address symbol => (platform.address symbol).setWidth width.bits

/-- The registers of the arguments of a system call. -/
def argumentRegisters : List Register :=
  [.rdi, .rsi, .rdx, .r10, .r8, .r9]

/-- The system call that a state is about to make. -/
def State.call (state : State) : Call where
  number := state.registers .rax
  arguments := argumentRegisters.map state.registers

/-- The state after a system call. -/
def State.afterCall (state : State) (kernel : Kernel) : State :=
  let calls := state.calls ++ [state.call]
  let scratch := kernel.scratch calls state.memory
  { state with
    registers := fun register =>
      match register with
      | .rax => kernel.returned calls state.memory
      | .rcx => scratch.1
      | .r11 => scratch.2
      | register => state.registers register
    memory := kernel.memory calls state.memory
    calls := calls }

/-- The outcome of a division of the two registers `rdx` and `rax` by a third one. -/
def State.divide (state : State) (platform : Platform) (divisor : View) : Outcome :=
  let low : View := ⟨.rax, divisor.width⟩
  let high : View := ⟨.rdx, divisor.width⟩
  let dividend := (state.get high ++ state.get low).toInt
  let factor := (state.get divisor).toInt
  let quotient := dividend.tdiv factor
  let bound : Int := 2 ^ (divisor.width.bits - 1)
  if factor = 0 ∨ quotient < -bound ∨ bound ≤ quotient then .divideError
  else
    .next
      { (state.set low (BitVec.ofInt low.width.bits quotient)).set high
          (BitVec.ofInt high.width.bits (dividend.tmod factor)) with
        flags := platform.undefinedFlags }

/-- Executes an instruction. -/
def exec (platform : Platform) (state : State) : Instruction → Outcome
  | .load target source =>
      .next (state.set target (source.value platform state.memory target.width))
  | .store symbol source =>
      .next
        { state with
          memory := state.memory.store source.width (platform.address symbol) (state.get source) }
  | .add target source =>
      let left := state.get target
      let right := source.value platform state.memory target.width
      .next { state.set target (left + right) with
        flags := .ofResult (left + right) (left.saddOverflow right) }
  | .subtract target source =>
      let left := state.get target
      let right := source.value platform state.memory target.width
      .next { state.set target (left - right) with flags := .ofComparison left right }
  | .multiply width target source =>
      .next
        { state.set ⟨target, width⟩ (state.get ⟨target, width⟩ * state.get ⟨source, width⟩) with
          flags := platform.undefinedFlags }
  | .exclusiveOr width target source =>
      let result := state.get ⟨target, width⟩ ^^^ state.get ⟨source, width⟩
      .next { state.set ⟨target, width⟩ result with flags := .ofResult result false }
  | .divide divisor => state.divide platform divisor
  | .compare left right =>
      .next
        { state with
          flags := .ofComparison (state.get left) (right.value platform state.memory left.width) }
  | .compareContent symbol right =>
      .next
        { state with
          flags :=
            .ofComparison (state.memory.load right.width (platform.address symbol))
              (state.get right) }
  | .jump relation label => if state.flags.meets relation then .jumped label state else .next state
  | .call => .next (state.afterCall platform.kernel)

/-- Executes instructions one after another, up to the first jump that is taken. -/
def run (platform : Platform) (state : State) : List Instruction → Outcome
  | [] => .next state
  | instruction :: rest =>
      match exec platform state instruction with
      | .next state => run platform state rest
      | outcome => outcome

theorem run_append {platform : Platform} {state middle : State} {first : List Instruction}
    (hfirst : run platform state first = .next middle) (second : List Instruction) :
    run platform state (first ++ second) = run platform middle second := by
  induction first generalizing state with
  | nil =>
      cases hfirst
      rfl
  | cons instruction rest ih =>
      rw [List.cons_append, run]
      rw [run] at hfirst
      cases hexec : exec platform state instruction with
      | next after =>
          rw [hexec] at hfirst
          exact ih hfirst
      | jumped label after =>
          rw [hexec] at hfirst
          cases hfirst
      | divideError =>
          rw [hexec] at hfirst
          cases hfirst

end Machine

end LineCompiler
