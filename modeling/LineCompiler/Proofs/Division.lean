import LineCompiler.Proofs.Calculation

/-!
# A quotient without the sign of its dividend

A division divides the number in two registers, and the code of a division clears the upper one.
For a dividend that is not negative the two registers then hold the dividend, and the quotient is
the one that was asked for.  For a negative dividend they hold a number that is larger by `2 ^ 64`,
and the result is never right: the division fails, or it gives a quotient with the wrong sign
(`division_by_sign`).
-/

namespace LineCompiler

open Machine Generate Calculation

namespace Division

/-- The quotient of a word that is taken without its sign. -/
def found (dividend divisor : Word) : Int :=
  (dividend.toNat : Int).tdiv divisor.toInt

/-- Whether a word has a quotient, if it is taken without its sign. -/
def Divides (dividend divisor : Word) : Prop :=
  divisor ≠ 0 ∧ Width.quad.Fits (found dividend divisor)

instance (dividend divisor : Word) : Decidable (Divides dividend divisor) :=
  inferInstanceAs (Decidable (_ ∧ _))

/-- The signed quotient of two words. -/
def wanted (dividend divisor : Word) : Int :=
  dividend.toInt.tdiv divisor.toInt

/-- The content of a name. -/
abbrev content (platform : Platform) (state : State) (name : Identifier) : Word :=
  state.memory.load .quad (platform.address name)

/-- The division of one name by another. -/
def calculation (left right result : Identifier) : Calculation :=
  ⟨.divide, .named left, .named right, result⟩

/-! ## Runs -/

section Cleared

variable {platform : Platform} {state : State}

/-- Behind a cleared upper register the dividend is that of the lower one, without a sign. -/
theorem quotient_of_cleared (hcleared : state.registers .rdx = 0) :
    (state.get ⟨.rdx, .quad⟩ ++ state.get ⟨.rax, .quad⟩).toInt.tdiv
      (state.get ⟨.rcx, .quad⟩).toInt =
      found (state.registers .rax) (state.registers .rcx) := by
  have hdividend : ((0 : Word) ++ state.registers .rax).toInt = (state.registers .rax).toNat := by
    rw [BitVec.toInt_append]
    simp
  rw [State.get_quad, State.get_quad, State.get_quad, hcleared, hdividend, found]

theorem fails_iff (hcleared : state.registers .rdx = 0) :
    ((state.get ⟨.rcx, .quad⟩).toInt = 0 ∨
      (state.get ⟨.rdx, .quad⟩ ++ state.get ⟨.rax, .quad⟩).toInt.tdiv
        (state.get ⟨.rcx, .quad⟩).toInt < -2 ^ 63 ∨
      2 ^ 63 ≤ (state.get ⟨.rdx, .quad⟩ ++ state.get ⟨.rax, .quad⟩).toInt.tdiv
        (state.get ⟨.rcx, .quad⟩).toInt) ↔
    ¬ Divides (state.registers .rax) (state.registers .rcx) := by
  have hdivisor : (state.registers .rcx).toInt = 0 ↔ state.registers .rcx = 0 := by
    rw [← BitVec.toInt_inj]
    rfl
  rw [quotient_of_cleared hcleared, State.get_quad, hdivisor, Divides, not_and_or, not_not]
  refine or_congr_right ?_
  rw [Width.fits_quad_iff]
  omega

private theorem registers_rax_of_set (state : State) (quotient remainder : Word) :
    ((state.set ⟨.rax, .quad⟩ quotient).set ⟨.rdx, .quad⟩ remainder).registers .rax = quotient := by
  rw [State.set_registers_of_ne (by decide), State.set_quad]

/-- A division that has a quotient. -/
theorem divide_of_divides (hcleared : state.registers .rdx = 0)
    (hdivides : Divides (state.registers .rax) (state.registers .rcx)) :
    ∃ final, state.divide platform ⟨.rcx, .quad⟩ = .next final ∧ final.memory = state.memory ∧
      final.calls = state.calls ∧
      final.registers .rax =
        BitVec.ofInt 64 (found (state.registers .rax) (state.registers .rcx)) := by
  refine ⟨_, if_neg (mt (fails_iff hcleared).mp (not_not.mpr hdivides)), rfl, rfl, ?_⟩
  dsimp only
  rw [registers_rax_of_set, quotient_of_cleared hcleared]

private theorem divide_of_not_divides (hcleared : state.registers .rdx = 0)
    (hdivides : ¬ Divides (state.registers .rax) (state.registers .rcx)) :
    state.divide platform ⟨.rcx, .quad⟩ = .divideError :=
  if_pos ((fails_iff hcleared).mpr hdivides)

end Cleared

/-- What the code of a division divides: the first operand behind a cleared register, by the
second. -/
theorem exists_prepared (platform : Platform) (state : State) (first second : Source) :
    ∃ prepared,
      run platform state
          [.load ⟨.rax, .quad⟩ first, .exclusiveOr .quad .rdx .rdx, .load ⟨.rcx, .quad⟩ second] =
            .next prepared ∧
        prepared.memory = state.memory ∧ prepared.calls = state.calls ∧
        prepared.registers .rax = first.value platform state.memory .quad ∧
        prepared.registers .rdx = 0 ∧
        prepared.registers .rcx = second.value platform state.memory .quad := by
  refine ⟨_, rfl, rfl, rfl, ?_, ?_, ?_⟩
  · rw [State.set_registers_of_ne (by decide)]
    dsimp only
    rw [State.set_registers_of_ne (by decide), State.set_quad]
  · rw [State.set_registers_of_ne (by decide)]
    dsimp only
    rw [State.set_quad, BitVec.xor_self]
    rfl
  · exact State.set_quad _ _ _

section Steps

variable {left right : Identifier} (result : Identifier) {platform : Platform} {state : State}

theorem stores_found
    (hdivides : Divides (content platform state left) (content platform state right)) :
    Stores platform state ((calculation left right result).code.map Instruction.line) result
      (found (content platform state left) (content platform state right)) := by
  obtain ⟨prepared, hrun, hmemory, hcalls, hrax, hrdx, hrcx⟩ :=
    exists_prepared platform state (.content left) (.content right)
  rw [← show prepared.registers .rax = content platform state left from hrax,
    ← show prepared.registers .rcx = content platform state right from hrcx] at hdivides ⊢
  obtain ⟨divided, hdivide, hkept, hmade, hquotient⟩ :=
    @divide_of_divides platform prepared hrdx hdivides
  have hsteps : run platform state (calculation left right result).steps = .next divided := by
    refine (run_append hrun [.divide ⟨.rcx, .quad⟩]).trans ?_
    rw [run, exec, hdivide]
    rfl
  exact stores_of_run hsteps (hkept.trans hmemory) (hmade.trans hcalls) hquotient

theorem runLines_fails
    (hdivides : ¬ Divides (content platform state left) (content platform state right)) :
    runLines platform state ((calculation left right result).code.map Instruction.line) =
      some .divideError := by
  obtain ⟨prepared, hrun, -, -, hrax, hrdx, hrcx⟩ :=
    exists_prepared platform state (.content left) (.content right)
  rw [← show prepared.registers .rax = content platform state left from hrax,
    ← show prepared.registers .rcx = content platform state right from hrcx] at hdivides
  rw [runLines_lines]
  refine congrArg some
    ((run_append hrun [.divide ⟨.rcx, .quad⟩, .store result ⟨.rax, .quad⟩]).trans ?_)
  rw [run, exec, divide_of_not_divides hrdx hdivides]

end Steps

/-! ## Signs -/

section Signs

variable {dividend divisor : Word}

private theorem found_of_nonneg (hsign : 0 ≤ dividend.toInt) :
    found dividend divisor = wanted dividend divisor := by
  have hmsb : dividend.msb = false := by
    rw [BitVec.msb_eq_toInt]
    simpa using hsign
  rw [found, wanted, BitVec.toInt_eq_toNat_of_msb hmsb]

theorem one_le_tdiv {number factor : Int} (hfactor : 0 < factor) (hle : factor ≤ number) :
    1 ≤ number.tdiv factor := by
  rw [Int.tdiv_eq_ediv_of_nonneg (by omega), Int.le_ediv_iff_mul_le hfactor]
  omega

/-- A negative dividend, taken without its sign, gives a quotient of the other sign. -/
theorem found_ne_wanted (hsign : dividend.toInt < 0) (hdivisor : divisor ≠ 0) :
    found dividend divisor ≠ wanted dividend divisor := by
  have hlarge : (2 : Int) ^ 63 ≤ dividend.toNat := by
    rw [BitVec.toInt_eq_toNat_cond] at hsign
    split at hsign <;> omega
  have hlow := BitVec.le_toInt divisor
  have hhigh := @BitVec.toInt_lt 64 divisor
  have hne : divisor.toInt ≠ 0 := fun hzero => hdivisor (BitVec.toInt_inj.mp hzero)
  rw [found, wanted]
  rcases Int.lt_or_gt_of_ne hne with hnegative | hpositive
  · have hfound : 1 ≤ (dividend.toNat : Int).tdiv (-divisor.toInt) :=
      one_le_tdiv (by omega) (by omega)
    have hwanted :=
      Int.tdiv_nonneg_of_nonpos_of_nonpos (Int.le_of_lt hsign) (Int.le_of_lt hnegative)
    rw [Int.tdiv_neg] at hfound
    omega
  · have hfound : 1 ≤ (dividend.toNat : Int).tdiv divisor.toInt := one_le_tdiv hpositive (by omega)
    have hwanted : 0 ≤ (-dividend.toInt).tdiv divisor.toInt :=
      Int.tdiv_nonneg (by omega) (Int.le_of_lt hpositive)
    rw [Int.neg_tdiv] at hwanted
    omega

theorem eq_of_ofInt {first second : Int} (hfirst : Width.quad.Fits first)
    (hsecond : Width.quad.Fits second) (heq : BitVec.ofInt 64 first = BitVec.ofInt 64 second) :
    first = second := by
  calc first
      = (BitVec.ofInt 64 first).toInt := hfirst.toInt_ofInt.symm
    _ = (BitVec.ofInt 64 second).toInt := by rw [heq]
    _ = second := hsecond.toInt_ofInt

end Signs

/-! ## Divisions -/

/-- **A division is right for the dividends that are not negative.**  The lines of a division stand
together, under whatever label and with whatever draws.  If the dividend, taken without its sign,
has a quotient, then they store this quotient in the variable for the result and change no other
byte of memory; otherwise they fail.  Let the divisor not be zero and the signed quotient fit into a
word.  Then the lines store the signed quotient exactly if the dividend is not negative. -/
theorem division_by_sign (left right result : Identifier) :
    ∃ lines : List String,
      (∀ names label draws, statement names label draws (calculation left right result).node =
        .write draws [inText label lines]) ∧
      ∀ (platform : Platform) (state : State),
        let dividend := content platform state left
        let divisor := content platform state right
        (Divides dividend divisor → Stores platform state lines result (found dividend divisor)) ∧
        (¬ Divides dividend divisor → runLines platform state lines = some .divideError) ∧
        (divisor ≠ 0 → Width.quad.Fits (wanted dividend divisor) →
          (Stores platform state lines result (wanted dividend divisor) ↔ 0 ≤ dividend.toInt)) := by
  refine ⟨(calculation left right result).code.map Instruction.line,
    (calculation left right result).statement_node,
    fun platform state => ⟨stores_found result, runLines_fails result,
      fun hdivisor hfits => ⟨fun hwanted => ?_, fun hsign => ?_⟩⟩⟩
  · by_contra hsign
    by_cases hdivides : Divides (content platform state left) (content platform state right)
    · have hsame := eq_of_ofInt hdivides.2 hfits ((stores_found result hdivides).unique hwanted)
      exact found_ne_wanted (Int.not_le.mp hsign) hdivisor hsame
    · obtain ⟨final, hrun, -⟩ := hwanted
      rw [runLines_fails result hdivides] at hrun
      cases hrun
  · rw [← found_of_nonneg hsign] at hfits ⊢
    exact stores_found result ⟨hdivisor, hfits⟩

/-- Seven divided by minus two is minus three. -/
theorem division_by_sign_seven :
    Width.quad.Fits (wanted 7 (-2)) ∧
      ∃ lines : List String,
        (∀ names label draws, statement names label draws (calculation nameX nameY nameZ).node =
          .write draws [inText label lines]) ∧
        Stores spread (holding 7 (-2)) lines nameZ (-3) := by
  have hfits : Width.quad.Fits (wanted 7 (-2)) := by decide
  obtain ⟨lines, hlines, hall⟩ := division_by_sign nameX nameY nameZ
  obtain ⟨-, -, hstores⟩ := hall spread (holding 7 (-2))
  rw [show content spread (holding 7 (-2)) nameX = 7 by decide +kernel,
    show content spread (holding 7 (-2)) nameY = -2 by decide +kernel] at hstores
  exact ⟨hfits, lines, hlines, (hstores (by decide) hfits).mpr (by decide)⟩

/-- Minus seven divided by two comes out as a large number, and divided by one it fails. -/
theorem minusSeven_without_sign :
    let lines :=
      ["\tmov rax, [x]\n", "\txor rdx, rdx\n", "\tmov rcx, [y]\n", "\tidiv rcx\n",
        "\tmov [z], rax\n"]
    statement {} mainLabel (.ofList []) (calculation nameX nameY nameZ).node =
        .write (.ofList []) [inText mainLabel lines] ∧
      wanted (-7) 2 = -3 ∧
      Stores spread (holding (-7) 2) lines nameZ 9223372036854775804 ∧
      ¬ Stores spread (holding (-7) 2) lines nameZ (-3) ∧
      runLines spread (holding (-7) 1) lines = some .divideError := by
  have hlines : (calculation nameX nameY nameZ).code.map Instruction.line =
      ["\tmov rax, [x]\n", "\txor rdx, rdx\n", "\tmov rcx, [y]\n", "\tidiv rcx\n",
        "\tmov [z], rax\n"] := by
    decide +kernel
  have hcontent : content spread (holding (-7) 2) nameX = -7 ∧
      content spread (holding (-7) 2) nameY = 2 := by
    decide +kernel
  have hone : content spread (holding (-7) 1) nameX = -7 ∧
      content spread (holding (-7) 1) nameY = 1 := by
    decide +kernel
  have hstores : Stores spread (holding (-7) 2)
      ((calculation nameX nameY nameZ).code.map Instruction.line) nameZ
      (found (content spread (holding (-7) 2) nameX) (content spread (holding (-7) 2) nameY)) := by
    refine stores_found nameZ ?_
    rw [hcontent.1, hcontent.2]
    decide
  have hfails :=
    @runLines_fails nameX nameY nameZ spread (holding (-7) 1) (by rw [hone.1, hone.2]; decide)
  rw [hlines, hcontent.1, hcontent.2, show found (-7) 2 = 9223372036854775804 by decide] at hstores
  rw [hlines] at hfails
  refine ⟨?_, by decide, hstores, fun hother => ?_, hfails⟩
  · rw [Calculation.statement_node, hlines]
  · exact absurd (hstores.unique hother) (by decide)

end Division

end LineCompiler
