import LineCompiler.Compile
import LineCompiler.Proofs.Assembly.Statements
import LineCompiler.Proofs.Program.Renumber
import LineCompiler.Proofs.Text.Lines

/-!
# Gaps between lines

A gap that is put into a source, in front of all lines or behind one of them, changes nothing but
line numbers (`compile_insert`).  The compilation ends at the same stage.  The other lines have the
same tokens, the names and the statements are the same, and so is the code.
-/

namespace LineCompiler

variable {f : Atom → Atom}

/-! ## Code does not depend on line numbers -/

namespace Generate

/-- The code of a statement stays the same under other line numbers. -/
def Unmoved (f : Atom → Atom) (node : Node) : Prop :=
  ∀ names label draws,
    statement names label draws (node.renumber f) = statement names label draws node

private theorem blockItems_renumber_of {items : List Node} (hitems : ∀ item ∈ items, Unmoved f item)
    (names : Names) (label : String) (draws : Draws) :
    blockItems names label draws (items.map (Node.renumber f)) =
      blockItems names label draws items := by
  induction items generalizing draws with
  | nil => rfl
  | cons item rest ih =>
      have hrest := ih fun other hother => hitems other (List.mem_cons_of_mem _ hother)
      rw [List.map_cons, blockItems, blockItems, hitems item (List.mem_cons_self ..)]
      exact congrArg _ (funext hrest)

theorem block_renumber_of {items : Node} (hitems : ∀ item ∈ items.inBlock, Unmoved f item)
    (names : Names) (label : String) (draws : Draws) :
    block names label draws (items.renumberBlock f) = block names label draws items := by
  cases items with
  | list items =>
      rw [Node.renumberBlock, Node.renumberAll_eq_map, block, block]
      exact blockItems_renumber_of hitems names label draws
  | _ => rfl

private theorem unmoved_statement (f : Atom → Atom) (node : Node) : Unmoved f node := by
  induction node using Node.blockInduction with
  | plain node hplain =>
      intro names label draws
      cases node with
      | ifElse condition thenBlock elseBlock => exact nomatch hplain
      | _ => rfl
  | conditional condition thenBlock elseBlock hthen helse =>
      intro names label draws
      rw [Node.renumber, statement, statement]
      simp only [block_renumber_of hthen, block_renumber_of helse]

end Generate

/-- A program with other line numbers. -/
def Program.renumber (f : Atom → Atom) (program : Program) : Program :=
  { program with statements := program.statements.map (Node.renumber f) }

private theorem Generate.program_renumber (draws : Draws) (program : Program) :
    Generate.program draws (program.renumber f) = Generate.program draws program := by
  obtain ⟨nodes, names⟩ := program
  have hstatements : ∀ draws, statements names draws (nodes.map (Node.renumber f)) =
      statements names draws nodes := by
    induction nodes with
    | nil => exact fun _ => rfl
    | cons node rest ih =>
        intro draws
        rw [List.map_cons, statements, statements, unmoved_statement f node]
        exact congrArg _ (funext ih)
  rw [program, program]
  exact congrArg _ (funext hstatements)

/-! ## The lines of a source -/

theorem empty_not_mem_sourceLines (source : String) : "" ∉ sourceLines source := by
  intro hmem
  obtain ⟨line, hline, heq⟩ := List.mem_map.mp hmem
  have hnil : line = [] := by simpa using congrArg String.toList heq
  exact Text.nil_not_mem_lines _ (hnil ▸ hline)

theorem sourceLines_append {front back : String} (hfront : Text.EndsLine front.toList)
    (hreturn : '\r' ∉ (front ++ back).toList) :
    sourceLines (front ++ back) = sourceLines front ++ sourceLines back := by
  rw [String.toList_append] at hreturn
  have hparts := hreturn
  rw [List.mem_append, not_or] at hparts
  rw [sourceLines, sourceLines, sourceLines, String.toList_append,
    Text.unifyNewlines_eq_self hreturn, Text.unifyNewlines_eq_self hparts.1,
    Text.unifyNewlines_eq_self hparts.2, Text.lines_append hfront, List.map_append]

namespace Gap

theorem text_inLine (gap : Gap) : '\n' ∉ gap.text ∧ '\r' ∉ gap.text := by
  obtain ⟨indent, comment, hcomment⟩ := gap
  cases comment with
  | none => simp [text]
  | some content =>
      have hcontent := hcomment content rfl
      simp [text, hcontent]

theorem toList_line (gap : Gap) : gap.line.toList = gap.text ++ ['\n'] := by
  rw [line, String.toList_ofList]

theorem return_not_mem_line (gap : Gap) : '\r' ∉ gap.line.toList := by
  rw [toList_line]
  simpa using gap.text_inLine.2

theorem sourceLines_line (gap : Gap) : sourceLines gap.line = [gap.line] := by
  rw [sourceLines, Text.unifyNewlines_eq_self gap.return_not_mem_line, toList_line,
    Text.lines_single gap.text_inLine.1]
  rfl

end Gap

/-! ## Compilations -/

/-- Two compilations of which the second is that of a source with one line more, at an index: they
end at the same stage, and differ in line numbers only. -/
inductive Compilation.Inserted (f : Atom → Atom) (index : Nat) : Compilation → Compilation → Prop
  | unscanned {before after : Lexed} (hlexed : before.Inserted f index after) (fault : Fault) :
      Inserted f index (.unscanned before fault) (.unscanned after (fault.renumber f))
  | unread {before after : Lexed} (hlexed : before.Inserted f index after) (count : Nat)
      (fault : Fault) :
      Inserted f index (.unread count before fault) (.unread (count + 1) after fault)
  | generated {before after : Lexed} (hlexed : before.Inserted f index after) (count : Nat)
      (program : Program) (sections : Sections) (fault : Option Fault) :
      Inserted f index (.generated count before program sections fault)
        (.generated (count + 1) after (program.renumber f) sections fault)

/-- Why a compilation fails, if it does. -/
def Compilation.fault? : Compilation → Option Fault
  | .unscanned _ fault | .unread _ _ fault => some fault
  | .generated _ _ _ _ fault => fault

theorem Compilation.Inserted.message? {index : Nat} {before after : Compilation}
    (hinserted : before.Inserted f index after) :
    after.fault?.map Fault.message? = before.fault?.map Fault.message? := by
  cases hinserted with
  | unscanned hlexed fault => exact congrArg some (fault.message?_renumber f)
  | unread hlexed count fault => rfl
  | generated hlexed count program sections fault => rfl

section Stages

variable (draws : Draws) {lines : List String}

theorem compileLines_of_fault {fault : Fault} (hscan : (lex {} lines).fault = some fault) :
    compileLines draws lines = .unscanned (lex {} lines) fault := by
  simp only [compileLines, hscan]

theorem compileLines_of_unread {fault : Fault} (hscan : (lex {} lines).fault = none)
    (hread : Reader.read (lex {} lines).lines = .error fault) :
    compileLines draws lines = .unread lines.length (lex {} lines) fault := by
  simp only [compileLines, hscan, hread]

theorem compileLines_of_read (program : Program) (hscan : (lex {} lines).fault = none)
    (hread : Reader.read (lex {} lines).lines = .ok program.statements)
    (hnames : program.names = (lex {} lines).names) :
    compileLines draws lines =
      .generated lines.length (lex {} lines) program
        (Sections.apply {} (Generate.program draws program).writes)
        (Generate.program draws program).fault := by
  simp only [compileLines, hscan, hread, ← hnames]

end Stages

private theorem inserted_compileLines (draws : Draws) {front back : List String}
    (hlines : "" ∉ front ++ back) (gap : Gap) :
    (compileLines draws (front ++ back)).Inserted (pastLine front.length) front.length
      (compileLines draws (front ++ gap.line :: back)) := by
  have hlexed := inserted_lex hlines gap {}
  have hscan := hlexed.fault
  have hread := Reader.read_of_inserted hlexed
  have hcount : (front ++ gap.line :: back).length = (front ++ back).length + 1 := by
    rw [List.length_append, List.length_append, List.length_cons]
    omega
  cases hfault : (lex {} (front ++ back)).fault with
  | some fault =>
      rw [hfault] at hscan
      rw [compileLines_of_fault draws hfault, compileLines_of_fault draws hscan]
      exact .unscanned hlexed fault
  | none =>
      rw [hfault] at hscan
      cases hstatements : Reader.read (lex {} (front ++ back)).lines with
      | error fault =>
          rw [hstatements] at hread
          rw [compileLines_of_unread draws hfault hstatements,
            compileLines_of_unread draws hscan hread, hcount]
          exact .unread hlexed _ fault
      | ok statements =>
          rw [hstatements] at hread
          let program : Program := { statements, names := (lex {} (front ++ back)).names }
          have hafter :=
            compileLines_of_read draws (program.renumber (pastLine front.length)) hscan hread
            hlexed.names.symm
          -- The code is that of a program with other line numbers.
          rw [compileLines_of_read draws program hfault hstatements rfl, hafter, hcount,
            Generate.program_renumber]
          exact .generated hlexed _ program _ _

/-- **A gap changes nothing but line numbers.**  In a source with line feeds only, let a line of
spaces, or of spaces and a comment, be put in where a line starts.  The compilation ends at the same
stage and with the same fault and message, if it fails.  The other lines have the same tokens; the
names are the same, and so are the statements but for the line numbers in them.  The code is the
same. -/
theorem compile_insert (draws : Draws) {front back : String} (gap : Gap)
    (hfront : Text.EndsLine front.toList) (hreturn : '\r' ∉ (front ++ back).toList) :
    (compile draws (front ++ back)).Inserted (pastLine (sourceLines front).length)
        (sourceLines front).length (compile draws (front ++ gap.line ++ back)) ∧
      (compile draws (front ++ gap.line ++ back)).fault?.map Fault.message? =
        (compile draws (front ++ back)).fault?.map Fault.message? := by
  have hgap := gap.return_not_mem_line
  have hgapEnds : Text.EndsLine gap.line.toList := by
    rw [gap.toList_line]
    exact Or.inr List.getLast?_concat
  have hafter : sourceLines (front ++ gap.line ++ back) =
      sourceLines front ++ gap.line :: sourceLines back := by
    simp only [String.toList_append, List.mem_append, not_or] at hreturn
    rw [String.append_assoc, sourceLines_append hfront, sourceLines_append hgapEnds,
      gap.sourceLines_line, List.singleton_append]
    · simp only [String.toList_append, List.mem_append, not_or]
      exact ⟨hgap, hreturn.2⟩
    · simp only [String.toList_append, List.mem_append, not_or]
      exact ⟨hreturn.1, hgap, hreturn.2⟩
  have hempty : "" ∉ sourceLines front ++ sourceLines back := by
    rw [List.mem_append, not_or]
    exact ⟨empty_not_mem_sourceLines front, empty_not_mem_sourceLines back⟩
  have hinserted := inserted_compileLines draws hempty gap
  rw [← sourceLines_append hfront hreturn, ← hafter] at hinserted
  exact ⟨hinserted, hinserted.message?⟩

/-- A comment in a block, behind the line that opens it. -/
def blockComment : Gap where
  indent := 2
  comment := some " x"
  inLine := by decide

theorem compile_insert_blockComment :
    (compile (.ofList []) "if (a == b) \x7b\nvar x: int;\n\x7d else \x7b\n\x7d\n").fault? = none ∧
      (compile (.ofList []) "if (a == b) \x7b\nvar x: int;\n\x7d else \x7b\n\x7d\n").Inserted
        (pastLine 1) 1
        (compile (.ofList []) "if (a == b) \x7b\n  // x\nvar x: int;\n\x7d else \x7b\n\x7d\n") := by
  have hinsert := @compile_insert (.ofList []) "if (a == b) \x7b\n"
    "var x: int;\n\x7d else \x7b\n\x7d\n" blockComment (Or.inr (by decide)) (by decide)
  refine ⟨by decide +kernel, ?_⟩
  exact hinsert.1

end LineCompiler
