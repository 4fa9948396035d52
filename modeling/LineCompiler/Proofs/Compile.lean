import LineCompiler.Compile
import LineCompiler.Proofs.Assembly.Success

/-!
# Which sources compile

A compilation has three stages, and each of them may fail.  A source compiles exactly if it is
scanned without a fault and its token lines are `Acceptable`: each line has what its statement needs
in its places, no statement in a block lacks its conditional, and every conditional that has a place
in the program compares operands that code can compare (`compile_succeeds_iff`).  The draws play no
part in that.

The scan accepts more than the later stages.  A comparison of two literals is scanned and read, and
no code can be generated for it (`compile_literals`).
-/

namespace LineCompiler

/-- Token lines that are read and for which code is generated. -/
structure Acceptable (lines : List TokenLine) : Prop where
  complete : ∀ line ∈ lines, line.isComplete = true
  supported : supported lines = true
  comparable : ∀ position ∈ placed lines, ∀ line, position.bind (lines[·]?) = some line →
    line.opener? = some .cond → line.isComparable = true

section Comparable

open Generate Reader

variable {lines : List TokenLine} {statements : List Node}

theorem mem_of_position {position : Option Nat} {line : TokenLine}
    (hline : position.bind (lines[·]?) = some line) : line ∈ lines := by
  obtain ⟨index, -, hfound⟩ := Option.bind_eq_some_iff.mp hline
  exact List.mem_of_getElem? hfound

/-- The conditionals of a program are those of the lines that are placed. -/
theorem conditional_mem_iff (hread : Reader.read lines = .ok statements) (test : Node) :
    (∃ thenBlock elseBlock, .ifElse test thenBlock elseBlock ∈ statements) ↔
      ∃ position ∈ placed lines, ∃ line, position.bind (lines[·]?) = some line ∧
        Reader.effect line = .ok (.conditional test) := by
  rw [← Node.head_mem_preorderAll_iff (fun _ hnode => hnode) (formed_single_of_read hread),
    preorderAll_of_read hread, List.mem_map]
  constructor
  · rintro ⟨position, hposition, hhead⟩
    unfold headAt at hhead
    split at hhead
    · rename_i line hline
      exact ⟨position, hposition, line, hline, effect_of_headOf hhead⟩
    · exact nomatch hhead
  · rintro ⟨position, hposition, line, hline, heffect⟩
    refine ⟨position, hposition, ?_⟩
    simp only [headAt, hline, headOf, heffect]
    rfl

/-- What a program that is read from scanned lines consists of: statements for which code is
generated, and conditionals that compare by a relation. -/
theorem formed_of_sound (hsound : ∀ line ∈ lines, Scan.Sound line.line line.tokens)
    (hread : Reader.read lines = .ok statements) :
    ∀ node ∈ statements, node.Formed Generates fun test => test.comparedBy.isOk = true :=
  formed_of_read (fun line hline _ => generates_of_effect (hsound line hline))
    (fun _ _ _ heffect => (condition_of_effect heffect).2) hread

/-- Code is generated for a program exactly if the conditionals that are placed are comparable. -/
theorem program_fault_iff (hsound : ∀ line ∈ lines, Scan.Sound line.line line.tokens)
    (hread : Reader.read lines = .ok statements) (names : Names) (draws : Draws) :
    (Generate.program draws { statements, names }).fault = none ↔
      ∀ position ∈ placed lines, ∀ line, position.bind (lines[·]?) = some line →
        line.opener? = some .cond → line.isComparable = true := by
  have hprogram : (Generate.program draws { statements, names }).fault = none ↔
      (Generate.statements names draws statements).fault = none := by
    rw [Generate.program, Emission.andThen_fault]
    exact ⟨And.right, And.intro rfl⟩
  -- The conditionals of the program and those of the placed lines are the same.
  rw [hprogram, statements_fault_iff (formed_of_sound hsound hread)]
  constructor
  · intro hcompare position hposition line hline hopener
    obtain ⟨effect, heffect⟩ := effect_of_read hread line (mem_of_position hline)
    have hcondition := heffect
    rw [effect_of_opener? hopener] at hcondition
    obtain ⟨test, -, rfl⟩ := exists_of_map_eq_ok hcondition
    obtain ⟨thenBlock, elseBlock, hmem⟩ := (conditional_mem_iff hread test).mpr
      ⟨position, hposition, line, hline, heffect⟩
    rw [← (condition_of_effect heffect).1]
    exact hcompare test thenBlock elseBlock hmem
  · intro hcomparable test thenBlock elseBlock hmem
    obtain ⟨position, hposition, line, hline, heffect⟩ :=
      (conditional_mem_iff hread test).mp ⟨thenBlock, elseBlock, hmem⟩
    rw [(condition_of_effect heffect).1]
    exact hcomparable position hposition line hline (opener?_of_conditional heffect)

end Comparable

/-- **Which sources compile.**  Whatever the draws, a source compiles exactly if it is scanned
without a fault and its token lines are acceptable. -/
theorem compile_succeeds_iff (draws : Draws) (source : String) :
    (∃ count lexed program sections,
        compile draws source = .generated count lexed program sections none) ↔
      (lex {} (sourceLines source)).fault = none ∧
        Acceptable (lex {} (sourceLines source)).lines := by
  have hsound : ∀ line ∈ (lex {} (sourceLines source)).lines,
      Scan.Sound line.line line.tokens := fun line hline => Lexed.sound_of_mem hline
  have hread := Reader.read_isOk_iff hsound
  unfold compile compileLines
  cases hfault : (lex {} (sourceLines source)).fault with
  | some fault => simp [hfault]
  | none =>
      -- The later stages fail on what the scan accepts: first the reader, then the generator.
      cases hstatements : Reader.read (lex {} (sourceLines source)).lines with
      | error fault =>
          rw [hstatements] at hread
          simp only [hfault, hstatements]
          constructor
          · rintro ⟨_, _, _, _, heq⟩
            exact nomatch heq
          · rintro ⟨-, hacceptable⟩
            exact nomatch hread.mpr ⟨hacceptable.complete, hacceptable.supported⟩
      | ok statements =>
          rw [hstatements] at hread
          have hprogram := program_fault_iff hsound hstatements
            (lex {} (sourceLines source)).names draws
          obtain ⟨hcomplete, hsupported⟩ := hread.mp rfl
          simp only [hfault, hstatements]
          constructor
          · rintro ⟨_, _, _, _, heq⟩
            injection heq with _ _ _ _ hnone
            exact ⟨trivial, hcomplete, hsupported, hprogram.mp hnone⟩
          · rintro ⟨-, hacceptable⟩
            rw [hprogram.mpr hacceptable.comparable]
            exact ⟨_, _, _, _, rfl⟩

/-- A conditional that compares two literals. -/
def literalConditional : Node :=
  .ifElse (.compare (.ofLiteral .number (.text "10")) (.ofLiteral .number (.text "5"))
    (.relation .equal)) (.list []) (.list [])

/-- A comparison of two literals is scanned and read, and no code is generated for it. -/
theorem compile_literals :
    ∃ lexed program sections,
      compile (Draws.ofList []) "if (10 == 5) \x7b\n\x7d else \x7b\n\x7d\n" =
        .generated 3 lexed program sections (some (.missingField "NumberLiteral" "name")) ∧
      lexed.fault = none := by
  have hlines : sourceLines "if (10 == 5) \x7b\n\x7d else \x7b\n\x7d\n" =
      ["if (10 == 5) \x7b\n", "\x7d else \x7b\n", "\x7d\n"] := by decide +kernel
  have hfault : (lex {} ["if (10 == 5) \x7b\n", "\x7d else \x7b\n", "\x7d\n"]).fault = none := rfl
  have hread : Reader.read (lex {} ["if (10 == 5) \x7b\n", "\x7d else \x7b\n", "\x7d\n"]).lines =
      .ok [literalConditional] := rfl
  have hprogram : ∀ names draws, (Generate.program draws ⟨[literalConditional], names⟩).fault =
      some (.missingField "NumberLiteral" "name") := fun _ _ => rfl
  simp only [compile, compileLines, hlines, hfault, hread, hprogram]
  exact ⟨_, _, _, rfl, hfault⟩

end LineCompiler
