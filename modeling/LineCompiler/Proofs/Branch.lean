import LineCompiler.Proofs.Assembly.Statements
import LineCompiler.Proofs.Machine.Assembler

/-!
# Where a conditional goes

A conditional on two names has a comparison of their contents, and then a jump to each of its
blocks.  The two jumps look for opposite relations, so one of them is taken, and only one
(`run_branch`).

The contents are quadwords, and they are compared in a register of half that width.  So their lower
halves decide, read as signed numbers.  For numbers that fit into a half this is the comparison that
was asked for; numbers beyond can be taken for equal when they are not.
-/

namespace LineCompiler

open Machine Generate

/-! ## Labels of blocks -/

theorem Identifier.rest_ok_of_all {chars : List Char} (hchars : chars.all Flat.isPart = true) :
    ∀ c ∈ chars, c.isAlphanum = true ∨ c = '_' := by
  intro c hc
  simpa [Flat.isPart] using List.all_eq_true.mp hchars c hc

/-- An identifier with a number behind it. -/
def Identifier.numbered (name : Identifier) (number : Nat) : Identifier where
  first := name.first
  rest := name.rest ++ Nat.toDigits 10 number
  first_ok := name.first_ok
  rest_ok := by
    intro c hc
    rcases List.mem_append.mp hc with hc | hc
    · exact name.rest_ok c hc
    · have hdigit : c.isDigit = true := Nat.isDigit_of_mem_toDigits (by decide) (by decide) hc
      exact Or.inl (by simp [Char.isAlphanum, hdigit])

namespace Branch

/-- The label of the block for a condition that holds, before its number. -/
def ifStem : Identifier :=
  ⟨'i', "f_block_".toList, by decide, Identifier.rest_ok_of_all rfl⟩

/-- The label of the block for a condition that does not hold, before its number. -/
def elseStem : Identifier :=
  ⟨'e', "lse_block_".toList, by decide, Identifier.rest_ok_of_all rfl⟩

/-- The labels of the two blocks of a conditional before which `position` draws were taken. -/
def ifTarget (stream : Nat → Int) (position : Nat) : Identifier :=
  ifStem.numbered (labelNumber stream (position + 8))

@[inherit_doc ifTarget]
def elseTarget (stream : Nat → Int) (position : Nat) : Identifier :=
  elseStem.numbered (labelNumber stream (position + 9))

theorem ofList_ifTarget (stream : Nat → Int) (position : Nat) :
    String.ofList (ifTarget stream position).text = thenLabelAt stream position := by
  refine String.toList_injective ?_
  simp [ifTarget, ifStem, Identifier.numbered, Identifier.text, thenLabelAt, Nat.toList_repr]

theorem ofList_elseTarget (stream : Nat → Int) (position : Nat) :
    String.ofList (elseTarget stream position).text = elseLabelAt stream position := by
  refine String.toList_injective ?_
  simp [elseTarget, elseStem, Identifier.numbered, Identifier.text, elseLabelAt, Nat.toList_repr]

private theorem ifTarget_ne_elseTarget (stream : Nat → Int) (position : Nat) :
    ifTarget stream position ≠ elseTarget stream position := by
  intro heq
  have hfirst : 'i' = 'e' := congrArg Identifier.first heq
  exact absurd hfirst (by decide)

/-! ## Code -/

/-- The condition on two names. -/
def condition (relation : Relation) (left right : Identifier) : Node :=
  .compare (.ofName left.atom) (.ofName right.atom) (.relation relation)

/-- The lower half of the register in which contents are compared. -/
abbrev eax : View :=
  ⟨.rax, .dword⟩

/-- The comparison of the contents of two names. -/
def comparison (left right : Identifier) : List Instruction :=
  [.load eax (.content left), .compare eax (.content right)]

/-- The jumps to the two blocks. -/
def jumpsTo (relation : Relation) (ifTrue ifFalse : Identifier) : List Instruction :=
  [.jump relation ifTrue, .jump (opposite relation) ifFalse]

private theorem compareCode_condition (relation : Relation) (left right : Identifier) :
    ∃ texts, compareCode (condition relation left right) = .ok texts ∧
      texts.map instruction = (comparison left right).map Instruction.line := by
  refine ⟨["mov eax, " ++ contentOf (.bare left.atom),
    "cmp eax, " ++ contentOf (.bare right.atom)], rfl, ?_⟩
  have hload : "mov " ++ eax.name ++ ", " = "mov eax, " := by decide
  have hcompare : "cmp " ++ eax.name ++ ", " = "cmp eax, " := by decide
  simp only [comparison, List.map_cons, List.map_nil, line_load, line_compare, contentOf_atom,
    Source.text, hload, hcompare]

private theorem lines_jumpsTo (relation : Relation) (stream : Nat → Int) (position : Nat) :
    (jumpsTo relation (ifTarget stream position) (elseTarget stream position)).map
      Instruction.line =
      [instruction (jump relation ++ " " ++ thenLabelAt stream position),
        instruction (jump (opposite relation) ++ " " ++ elseLabelAt stream position)] := by
  have hname : ∀ relation, jumpName relation = jump relation := by
    intro relation
    cases relation <;> rfl
  simp only [jumpsTo, List.map_cons, List.map_nil, line_jump, ofList_ifTarget, ofList_elseTarget,
    hname]

/-! ## Runs -/

/-- The opposite jump is taken exactly if a jump is not taken. -/
theorem meets_opposite (flags : Flags) (relation : Relation) :
    flags.meets (opposite relation) = !flags.meets relation := by
  obtain ⟨zero, sign, overflow⟩ := flags
  cases relation <;> cases zero <;> cases sign <;> cases overflow <;> rfl

private theorem run_jumpsTo (platform : Platform) (state : State) (relation : Relation)
    (ifTrue ifFalse : Identifier) :
    run platform state (jumpsTo relation ifTrue ifFalse) =
      .jumped (if state.flags.meets relation then ifTrue else ifFalse) state := by
  have hopposite := meets_opposite state.flags relation
  by_cases hmeets : state.flags.meets relation = true
  · rw [if_pos hmeets, jumpsTo, run, exec, if_pos hmeets]
  · rw [Bool.not_eq_true] at hmeets
    rw [hmeets, Bool.not_false] at hopposite
    simp [jumpsTo, run, exec, hmeets, hopposite]

/-- The state after the comparison. -/
def compared (platform : Platform) (state : State) (left right : Identifier) : State :=
  { state.set eax (state.memory.load .dword (platform.address left)) with
    flags := .ofComparison (state.memory.load .dword (platform.address left))
      (state.memory.load .dword (platform.address right)) }

private theorem run_comparison (platform : Platform) (state : State) (left right : Identifier) :
    run platform state (comparison left right) = .next (compared platform state left right) := by
  simp only [comparison, run, exec, Source.value, State.get_set]
  rfl

/-- **One of the two jumps is taken**, and the four lower bytes of each content decide which. -/
theorem run_branch (platform : Platform) (state : State) (relation : Relation)
    (left right ifTrue ifFalse : Identifier) :
    run platform state (comparison left right ++ jumpsTo relation ifTrue ifFalse) =
      .jumped
        (if relation.holds (state.memory.load .dword (platform.address left)).toInt
            (state.memory.load .dword (platform.address right)).toInt then ifTrue else ifFalse)
        (compared platform state left right) := by
  rw [run_append (run_comparison platform state left right), run_jumpsTo, compared,
    Flags.meets_ofComparison (by decide)]

/-! ## Conditionals on two names -/

/-- **The lower halves of two contents decide.**  A conditional on two names writes a comparison,
the code of its two blocks under their labels, and its jumps.  From every state of the machine the
comparison and the jumps end in a jump to one of the two labels, with memory unchanged: to that of
the first block exactly if the lower halves of the two quadwords, as signed numbers, are in the
relation.  If both numbers fit into a half, they themselves are. -/
theorem branch_by_lower_halves {names : Names} {label : String} {draws : Draws}
    (relation : Relation) (left right : Identifier) {thenBlock elseBlock : Node}
    (hok : (statement names label draws
      (.ifElse (condition relation left right) thenBlock elseBlock)).fault = none) :
    let ifTrue := ifTarget draws.stream draws.taken
    let ifFalse := elseTarget draws.stream draws.taken
    ifTrue ≠ ifFalse ∧
      ∃ (comparing jumping : List String) (thenPart elsePart : Emission),
        thenPart = sequence names (String.ofList ifTrue.text) [returnLine]
          (draws.skip 10) thenBlock.inBlock ∧
        elsePart = sequence names (String.ofList ifFalse.text) [returnLine]
          thenPart.draws elseBlock.inBlock ∧
        (statement names label draws
          (.ifElse (condition relation left right) thenBlock elseBlock)).writes =
          inText label comparing ::
            (thenPart.writes ++ elsePart.writes ++ jumping.map fun line => inText label [line]) ∧
        ∀ (platform : Platform) (state : State),
          let first := state.memory.load .quad (platform.address left)
          let second := state.memory.load .quad (platform.address right)
          let decided := relation.holds (first.setWidth 32).toInt (second.setWidth 32).toInt
          (∃ final,
            runLines platform state (comparing ++ jumping) =
              some (.jumped (if decided then ifTrue else ifFalse) final) ∧
            final.memory = state.memory ∧ final.calls = state.calls) ∧
          (Width.dword.Fits first.toInt → Width.dword.Fits second.toInt →
            decided = relation.holds first.toInt second.toInt) := by
  obtain ⟨texts, found, thenPart, elsePart, htexts, hfound, hthen, -, helse, -, heq⟩ :=
    statement_ifElse hok
  obtain ⟨code, hcode, hlines⟩ := compareCode_condition relation left right
  rw [hcode] at htexts
  cases htexts
  cases hfound
  refine ⟨ifTarget_ne_elseTarget _ _, (comparison left right).map Instruction.line,
    (jumpsTo relation (ifTarget draws.stream draws.taken) (elseTarget draws.stream draws.taken)).map
      Instruction.line,
    thenPart, elsePart, ?_, ?_, ?_, fun platform state =>
      ⟨⟨compared platform state left right, ?_, rfl, rfl⟩, ?_⟩⟩
  · rw [ofList_ifTarget, hthen]
  · rw [ofList_elseTarget, helse]
  · rw [heq, lines_jumpsTo, ← hlines]
    rfl
  · rw [← List.map_append, runLines_lines, run_branch, Memory.load_dword, Memory.load_dword]
  · intro hfirst hsecond
    rw [hfirst.toInt_setWidth, hsecond.toInt_setWidth]

/-- The names `a` and `b`. -/
def nameA : Identifier := .ofLetter 'a' rfl

@[inherit_doc nameA]
def nameB : Identifier := .ofLetter 'b' rfl

/-- A conditional in a conditional, with a call in the inner block. -/
def nested : Node :=
  .list [.ifElse (condition .smaller nameB nameA) (.list [])
    (.list [.syscall (.text "60") (.list []) (.ofName nameA.atom)])]

/-- The outer conditional compares `a` and `b` as asked where both are small. -/
theorem branch_by_lower_halves_nested :
    (statement {} mainLabel (.ofList [])
      (.ifElse (condition .smallerEqual nameA nameB) nested (.list []))).fault = none ∧
      ∃ lines : List String, ∀ (platform : Platform) (state : State),
        let first := state.memory.load .quad (platform.address nameA)
        let second := state.memory.load .quad (platform.address nameB)
        Width.dword.Fits first.toInt → Width.dword.Fits second.toInt →
        ∃ final, runLines platform state lines =
          some (.jumped
            (if first.toInt ≤ second.toInt then ifTarget (Draws.ofList []).stream 0
              else elseTarget (Draws.ofList []).stream 0) final) := by
  have hok : (statement {} mainLabel (.ofList [])
      (.ifElse (condition .smallerEqual nameA nameB) nested (.list []))).fault = none := by
    decide +kernel
  obtain ⟨-, comparing, jumping, -, -, -, -, -, hrun⟩ :=
    branch_by_lower_halves .smallerEqual nameA nameB hok
  refine ⟨hok, comparing ++ jumping, fun platform state hfirst hsecond => ?_⟩
  obtain ⟨⟨final, hnext, -⟩, hdecided⟩ := hrun platform state
  rw [hdecided hfirst hsecond] at hnext
  simp only [Relation.holds, decide_eq_true_eq] at hnext
  exact ⟨final, hnext⟩

/-- Two names that lie side by side. -/
def sideBySide : Platform where
  address name := if name.first = 'a' then 0 else 8
  kernel := ⟨fun _ _ => 0, fun _ memory => memory, fun _ _ => (0, 0)⟩
  undefinedFlags := ⟨false, false, false⟩

/-- A state in which `a` is `2 ^ 32` and `b` is zero. -/
def upperHalf : State where
  registers _ := 0
  flags := ⟨false, false, false⟩
  memory byte := if byte = 4 then 1 else 0
  calls := []

/-- Two numbers that differ are taken for equal: the code of `a == b` jumps to the block for a
condition that holds. -/
theorem upperHalf_taken_for_zero :
    let lines :=
      ["\tmov eax, [a]\n", "\tcmp eax, [b]\n", "\tje if_block_1007\n", "\tjne else_block_1008\n"]
    ownLines {} (Draws.ofList []).stream 0
      (.ifElse (condition .equal nameA nameB) (.list []) (.list [])) = lines ∧
      upperHalf.memory.load .quad (sideBySide.address nameA) = 2 ^ 32 ∧
      upperHalf.memory.load .quad (sideBySide.address nameB) = 0 ∧
      ∃ final, runLines sideBySide upperHalf lines =
        some (.jumped (ifTarget (Draws.ofList []).stream 0) final) := by
  have hlines : ["\tmov eax, [a]\n", "\tcmp eax, [b]\n", "\tje if_block_1007\n",
      "\tjne else_block_1008\n"] =
      (comparison nameA nameB ++ jumpsTo .equal (ifTarget (Draws.ofList []).stream 0)
        (elseTarget (Draws.ofList []).stream 0)).map Instruction.line := by decide +kernel
  refine ⟨by decide +kernel, by decide +kernel, by decide +kernel,
    compared sideBySide upperHalf nameA nameB, ?_⟩
  rw [hlines, runLines_lines, run_branch]
  rfl

end Branch

end LineCompiler
