import LineCompiler.Proofs.Flat.Lines

/-!
# Scanning and reading undo printing

A printed program of the flat language is scanned without a fault, and reading its token lines gives
the nodes of the program (`read_lex_print`).

The proof goes through the lines from the front, with any spaces between their elements.  `Yields`
says what the remaining lines give when they are scanned and read from a state on, and each line
moves the state on by one step: `Yields.line` for the step, `Yields.block` for the statements of a
block, `Yields.spaced` for the whole.  Between two statements no block is open, neither in the scan
nor in the reading, and the statements so far are in their places.  A line that is refused ends the
scan, so that nothing is given.

The nodes that a program with spaces gives are those of the program exactly if the spaces are
harmless (`nodesRead_eq_iff`), and a printed program has no spaces but its own (`lines_eq`).
-/

namespace LineCompiler.Flat

open Text Scan Reader

/-- The lines, scanned and read from a state on, give the statements `result`, or nothing if the
scan ends early. -/
def Yields (names : Names) (blocks : Blocks) (reading : Reading) (number : Nat)
    (lines : List (List Char)) (result : Option (List Node)) : Prop :=
  ∀ previous : Option Nat,
    let lexed := Lexed.scan names blocks
      (SourceLine.linkFrom number previous (lines.map String.ofList))
    match result with
    | none => lexed.fault ≠ none
    | some nodes =>
        lexed.fault = none ∧ (lexed.lines.foldlM readLine reading).map Reading.settled = .ok nodes

section Steps

variable {names : Names} {blocks : Blocks} {reading reading' : Reading} {number : Nat}
  {lines : List (List Char)} {result : Option (List Node)} {gaps : Nat → Gaps}

theorem Yields.nil (names : Names) (blocks : Blocks) (reading : Reading) (number : Nat) :
    Yields names blocks reading number [] (some reading.settled) :=
  fun _ => ⟨rfl, rfl⟩

theorem ofList_ne_empty {content : List Char} (hne : content ≠ []) : String.ofList content ≠ "" :=
  fun hempty => hne (String.ofList_injective hempty)

/-- One line: its scan, and the effect of its tokens. -/
theorem Yields.line {content : List Char} {tokens : List Token} {declared : Names}
    {blocks' : Blocks} {effect : Effect Node} (hne : content ≠ [])
    (hscan : ∀ line : SourceLine, line.content = String.ofList content →
      scanLine names blocks line = ⟨0, .ok ⟨tokens, declared, blocks'⟩⟩)
    (heffect : ∀ line : SourceLine, line.number = .integer number →
      Reader.effect ⟨line, tokens⟩ = .ok effect)
    (happly : reading.apply effect = .ok reading')
    (hrest : Yields (names.append declared) blocks' reading' (number + 1) lines result) :
    Yields names blocks reading number (content :: lines) result := by
  intro previous
  have hafter := hrest (some number)
  simp only [List.map_cons, SourceLine.linkFrom, if_neg (ofList_ne_empty hne), Lexed.scan]
  rw [hscan _ rfl]
  cases result with
  | none => exact hafter
  | some nodes =>
      refine ⟨hafter.1, ?_⟩
      rw [List.foldlM_cons, readLine_eq, heffect _ rfl]
      simp only [Except.bind, happly]
      exact hafter.2

/-- A line that is refused. -/
theorem Yields.stop {content : List Char} {fault : SourceLine → Fault} (hne : content ≠ [])
    (hscan : ∀ line : SourceLine, line.content = String.ofList content →
      scanLine names blocks line = ⟨0, .error (fault line)⟩) :
    Yields names blocks reading number (content :: lines) none := by
  intro previous
  simp only [List.map_cons, SourceLine.linkFrom, if_neg (ofList_ne_empty hne), Lexed.scan]
  rw [hscan _ rfl]
  exact Option.some_ne_none _

theorem rowLine_ne_nil (gaps : Gaps) (row : List Element) : rowLine gaps row ≠ [] :=
  List.append_ne_nil_of_right_ne_nil _ (List.cons_ne_nil _ _)

/-- A simple statement goes to the block that is open. -/
theorem Yields.simple (hnames : AllNames names) {gaps : Gaps} {indent : Nat} {statement : Simple}
    (hadd : reading.add (statement.nodeRead (gaps.after 1) number) = .ok reading')
    (hrest : ∀ names', AllNames names' → Yields names' blocks reading' (number + 1) lines result) :
    Yields names blocks reading number (rowLine gaps (statement.row indent) :: lines) result :=
  Yields.line (rowLine_ne_nil _ _) (fun _ => scanLine_row hnames blocks gaps indent statement)
    (fun _ hnumber => effect_row hnumber statement _) hadd
    (hrest _ (hnames.append (statement.allNames_declares _)))

/-- The nodes of simple statements on consecutive lines, as they are read. -/
def blockNodesRead (gaps : Nat → Gaps) (number : Nat) : List Simple → List Node
  | [] => []
  | statement :: rest =>
      statement.nodeRead ((gaps number).after 1) number :: blockNodesRead gaps (number + 1) rest

/-- The statements of a block go to the block that is open, one after another. -/
theorem Yields.block (hnames : AllNames names) {indent : Nat} {block : List Simple}
    (hadd : (blockNodesRead gaps number block).foldlM Reading.add reading = .ok reading')
    (hrest : ∀ names', AllNames names' →
      Yields names' blocks reading' (number + block.length) lines result) :
    Yields names blocks reading number
      (rowLines gaps number (block.map (Simple.row indent)) ++ lines) result := by
  induction block generalizing names reading number with
  | nil =>
      cases hadd
      exact hrest names hnames
  | cons statement block ih =>
      rw [blockNodesRead, List.foldlM_cons] at hadd
      cases hfirst : reading.add (statement.nodeRead ((gaps number).after 1) number) with
      | error fault =>
          rw [hfirst] at hadd
          exact nomatch hadd
      | ok middle =>
          rw [hfirst] at hadd
          rw [List.length_cons, Nat.add_comm block.length 1, ← Nat.add_assoc] at hrest
          exact Yields.simple hnames hfirst fun names' hnames' => ih hnames' hadd hrest

end Steps

/-! ## Blocks -/

/-- A reading inside the first block of a conditional gathers statements there. -/
theorem foldlM_add_inIf (statements : List (Option Node)) (conditional : Conditional)
    (inElse : Bool) (nodes : List Node) :
    nodes.foldlM Reading.add ⟨statements, some conditional, true, inElse⟩ =
      .ok ⟨statements, some { conditional with thenBlock := conditional.thenBlock ++ nodes }, true,
        inElse⟩ := by
  induction nodes generalizing conditional with
  | nil => simp [pure, Except.pure]
  | cons node nodes ih =>
      rw [List.foldlM_cons]
      simp only [Reading.add, if_true, bind, Except.bind]
      rw [ih]
      simp

/-- A reading inside the second block of a conditional gathers statements there. -/
theorem foldlM_add_inElse (statements : List (Option Node)) (conditional : Conditional)
    (nodes : List Node) :
    nodes.foldlM Reading.add ⟨statements, some conditional, false, true⟩ =
      .ok ⟨statements, some { conditional with elseBlock := conditional.elseBlock ++ nodes }, false,
        true⟩ := by
  induction nodes generalizing conditional with
  | nil => simp [pure, Except.pure]
  | cons node nodes ih =>
      rw [List.foldlM_cons]
      simp only [Reading.add, if_true, Bool.false_eq_true, if_false, bind, Except.bind]
      rw [ih]
      simp

/-! ## Statements -/

/-- A reading between two statements, with the statements `done` in their places. -/
structure Between (reading : Reading) (done : List Node) : Prop where
  inIf : reading.inIf = false
  inElse : reading.inElse = false
  settled : reading.settled = done

theorem Between.add {reading : Reading} {done : List Node} (hbetween : Between reading done)
    (node : Node) :
    ∃ reading', reading.add node = .ok reading' ∧ Between reading' (done ++ [node]) := by
  obtain ⟨statements, current, inIf, inElse⟩ := reading
  obtain ⟨hinIf, hinElse, hsettled⟩ := hbetween
  subst hinIf hinElse hsettled
  exact ⟨⟨statements ++ [some node], current, false, false⟩, rfl, rfl, rfl,
    by simp [Reading.settled]⟩

/-- A conditional with both blocks takes its place behind the statements before it. -/
theorem between_conditional {reading : Reading} {done : List Node}
    (hbetween : Between reading done) (condition : Node) (thenBlock elseBlock : List Node) :
    Between ⟨reading.settled.map some ++ [none], some ⟨condition, thenBlock, elseBlock⟩,
      false, false⟩
      (done ++ [.ifElse condition (.list thenBlock) (.list elseBlock)]) := by
  refine ⟨rfl, rfl, ?_⟩
  rw [hbetween.settled, Reading.settled, List.map_append, List.map_map]
  exact congrArg (· ++ _) (List.map_id done)

/-- The node of a statement whose first line has the given number, as it is read; nothing if the
line that closes it is refused. -/
def Statement.nodeRead (gaps : Nat → Gaps) (number : Nat) : Statement → Option Node
  | .simple statement => some (statement.nodeRead ((gaps number).after 1) number)
  | .conditional left comparison right thenBlock elseBlock =>
      if gaps (number + 1 + thenBlock.length + 1 + elseBlock.length) 0 = 0 then
        some (.ifElse (conditionRead (gaps number 5) left comparison right)
          (.list (blockNodesRead gaps (number + 1) thenBlock))
          (.list (blockNodesRead gaps (number + 1 + thenBlock.length + 1) elseBlock)))
      else none

theorem Statement.length_rows (indent : Nat) (statement : Statement) :
    (statement.rows indent).length = statement.height := by
  cases statement with
  | simple statement => rfl
  | conditional left comparison right thenBlock elseBlock =>
      simp only [Statement.rows, Statement.height, List.length_cons, List.length_append,
        List.length_map, List.length_nil]
      omega

theorem Yields.conditional {names : Names} (hnames : AllNames names) {reading : Reading}
    {done : List Node} {result : Option (List Node)} {number indent : Nat} {gaps : Nat → Gaps}
    {lines : List (List Char)} (hbetween : Between reading done) {left right : Operand}
    {comparison : Comparison} {thenBlock elseBlock : List Simple} {statement : Statement}
    (hstatement : statement = .conditional left comparison right thenBlock elseBlock)
    (hrest : ∀ node, statement.nodeRead gaps number = some node →
      ∀ names' reading', AllNames names' → Between reading' (done ++ [node]) →
        Yields names' {} reading' (number + statement.height) lines result)
    (hstop : statement.nodeRead gaps number = none → result = none) :
    Yields names {} reading number
      (rowLines gaps number (statement.rows indent) ++ lines) result := by
  subst hstatement
  have hheight : number + (thenBlock.length + elseBlock.length + 3) =
      number + 1 + thenBlock.length + 1 + elseBlock.length + 1 := by omega
  rw [Statement.height, hheight] at hrest
  rw [Statement.rows, rowLines, rowLines_append, rowLines, rowLines_append, List.length_map,
    List.length_map, List.cons_append, List.append_assoc, List.cons_append, List.append_assoc,
    rowLines, rowLines, List.singleton_append]
  -- The head opens the conditional, whose first block is then filled.
  apply Yields.line (rowLine_ne_nil _ _)
    (fun line => scanLine_headRow hnames _ left comparison right)
    (fun line _ => effect_headTokensRead line _ left comparison right) rfl
  simp only [Reading.openConditional, hbetween.inElse]
  apply Yields.block (hnames.append allNames_empty) (foldlM_add_inIf ..)
  intro names hnames
  -- The line between the blocks closes the first block and opens the second one.
  apply Yields.line (rowLine_ne_nil _ _) (fun line => scanLine_elseRow hnames _)
    (fun line _ => rfl) rfl
  apply Yields.block (hnames.append allNames_empty) (foldlM_add_inElse ..)
  intro names hnames
  -- The last line gives the conditional its place, unless it is refused.
  by_cases hgap : gaps (number + 1 + thenBlock.length + 1 + elseBlock.length) 0 = 0
  · have hscan : ∀ line : SourceLine, line.content = String.ofList
          (rowLine (gaps (number + 1 + thenBlock.length + 1 + elseBlock.length)) endRow) →
        scanLine names ⟨false, true, false⟩ line = ⟨0, .ok ⟨[.symbol .closeBrace], {}, {}⟩⟩ := by
      intro line hcontent
      rw [scanLine_endRow hnames _ hcontent, if_pos hgap]
    apply Yields.line (rowLine_ne_nil _ _) hscan (fun line _ => rfl) rfl
    apply hrest _ (if_pos hgap) _ _ (hnames.append allNames_empty)
    exact between_conditional hbetween _ _ _
  · rw [hstop (if_neg hgap)]
    apply Yields.stop (rowLine_ne_nil _ _)
    intro line hcontent
    rw [scanLine_endRow hnames _ hcontent, if_neg hgap]

/-- The nodes of a program whose first line has the given number, as they are read. -/
def nodesRead (gaps : Nat → Gaps) (number : Nat) : List Statement → Option (List Node)
  | [] => some []
  | statement :: rest =>
      (statement.nodeRead gaps number).bind fun node =>
        (nodesRead gaps (number + statement.height) rest).map (node :: ·)

/-- **What a program with spaces gives.** -/
theorem Yields.spaced {names : Names} (hnames : AllNames names) {reading : Reading}
    {done : List Node} {number indent : Nat} {gaps : Nat → Gaps} (hbetween : Between reading done)
    (program : List Statement) :
    Yields names {} reading number (rowLines gaps number (program.flatMap (Statement.rows indent)))
      ((nodesRead gaps number program).map (done ++ ·)) := by
  induction program generalizing names reading done number with
  | nil =>
      rw [List.flatMap_nil, nodesRead, Option.map_some, List.append_nil, ← hbetween.settled]
      exact Yields.nil names {} reading number
  | cons statement program ih =>
      have hafter : ∀ node, statement.nodeRead gaps number = some node →
          ∀ names' reading', AllNames names' →
          Between reading' (done ++ [node]) →
          Yields names' {} reading' (number + statement.height)
            (rowLines gaps (number + statement.height) (program.flatMap (Statement.rows indent)))
            ((nodesRead gaps number (statement :: program)).map (done ++ ·)) := by
        intro node hnode names' reading' hnames' hbetween'
        have hnodes : (nodesRead gaps number (statement :: program)).map (done ++ ·) =
            (nodesRead gaps (number + statement.height) program).map ((done ++ [node]) ++ ·) := by
          rw [nodesRead, hnode, Option.bind_some, Option.map_map]
          exact congrArg (Option.map · _) (funext fun nodes => by simp)
        rw [hnodes]
        exact ih hnames' hbetween'
      rw [List.flatMap_cons, rowLines_append, Statement.length_rows]
      cases statement with
      | simple statement =>
          obtain ⟨reading', hadd, hbetween'⟩ :=
            hbetween.add (statement.nodeRead ((gaps number).after 1) number)
          exact Yields.simple hnames hadd fun names' hnames' =>
            hafter _ rfl names' reading' hnames' hbetween'
      | conditional left comparison right thenBlock elseBlock =>
          refine Yields.conditional hnames hbetween rfl hafter fun hnone => ?_
          rw [nodesRead, hnone]
          rfl

/-! ## Harmless spaces -/

private theorem blockNodesRead_eq_iff {gaps : Nat → Gaps} {number indent : Nat}
    {block : List Simple} :
    blockNodesRead gaps number block = blockNodes number block ↔
      AreHarmless gaps number (block.map (Simple.row indent)) := by
  induction block generalizing number with
  | nil => simp [blockNodesRead, blockNodes, AreHarmless]
  | cons statement rest ih =>
      rw [blockNodesRead, blockNodes, List.cons.injEq, ih, List.map_cons, AreHarmless,
        Simple.nodeRead_eq_iff]

theorem Statement.nodeRead_eq_iff {statement : Statement} {gaps : Nat → Gaps}
    {number indent : Nat} :
    statement.nodeRead gaps number = some (statement.node number) ↔
      AreHarmless gaps number (statement.rows indent) := by
  cases statement with
  | simple statement =>
      rw [Statement.nodeRead, Statement.node, Option.some.injEq, Statement.rows, AreHarmless,
        AreHarmless, and_true, Simple.nodeRead_eq_iff]
  | conditional left comparison right thenBlock elseBlock =>
      have helse : ∀ gaps, IsHarmless gaps elseRow := by simp [elseRow, IsHarmless]
      have hend : ∀ gaps, IsHarmless gaps endRow ↔ gaps 0 = 0 := by simp [endRow, IsHarmless]
      simp only [Statement.rows, AreHarmless, areHarmless_append, List.length_map, helse, hend,
        true_and, and_true, ← blockNodesRead_eq_iff, ← conditionRead_eq_iff]
      rw [Statement.nodeRead, Statement.node]
      by_cases hgap : gaps (number + 1 + thenBlock.length + 1 + elseBlock.length) 0 = 0
      · simp [hgap]
      · simp [hgap]

/-- **The nodes of a program are read** exactly if there are no more spaces in front of its tight
elements. -/
theorem nodesRead_eq_iff {gaps : Nat → Gaps} {number indent : Nat} {program : List Statement} :
    nodesRead gaps number program = some (nodes number program) ↔
      AreHarmless gaps number (program.flatMap (Statement.rows indent)) := by
  induction program generalizing number with
  | nil => simp [nodesRead, nodes, AreHarmless]
  | cons statement rest ih =>
      rw [List.flatMap_cons, areHarmless_append, Statement.length_rows, ← ih,
        ← Statement.nodeRead_eq_iff, nodesRead, nodes]
      cases statement.nodeRead gaps number with
      | none => simp
      | some node => cases nodesRead gaps (number + statement.height) rest <;> simp

/-! ## Printed programs -/

private theorem areHarmless_zero (number : Nat) (rows : List (List Element)) :
    AreHarmless (fun _ _ => 0) number rows := by
  have hrow : ∀ row, IsHarmless (fun _ => 0) row := by
    intro row
    induction row with
    | nil => trivial
    | cons element rest ih => exact ⟨fun _ => rfl, ih⟩
  induction rows generalizing number with
  | nil => trivial
  | cons row rest ih => exact ⟨hrow row, ih (number + 1)⟩

theorem rowLine_zero (indent : Nat) (statement : Simple) :
    rowLine (fun _ => 0) (statement.row indent) = List.replicate indent ' ' ++ statement.line := by
  rw [Simple.row, rowLine_cons, Simple.line]
  cases statement with
  | constant name size type value =>
      rw [Simple.text, declarationText_eq]
      rfl
  | var name size type =>
      rw [Simple.text, declarationText_eq]
      rfl
  | pointer name type value =>
      rw [Simple.text, declarationText_eq]
      rfl
  | syscall number arguments arity error =>
      rw [Simple.text, callText_eq]
      rfl

theorem blockLines_eq (indent number : Nat) (block : List Simple) :
    blockLines indent block = rowLines (fun _ _ => 0) number (block.map (Simple.row indent)) := by
  induction block generalizing number with
  | nil => rfl
  | cons statement rest ih =>
      rw [blockLines, List.map_cons, ← blockLines, List.map_cons, rowLines, rowLine_zero, ih]

theorem Statement.lines_eq (indent number : Nat) (statement : Statement) :
    statement.lines indent = rowLines (fun _ _ => 0) number (statement.rows indent) := by
  cases statement with
  | simple statement =>
      rw [Statement.lines, Statement.rows, rowLines, rowLines, rowLine_zero]
      rfl
  | conditional left comparison right thenBlock elseBlock =>
      rw [Statement.lines, Statement.rows, rowLines, rowLines_append, rowLines, rowLines_append,
        ← blockLines_eq, ← blockLines_eq, headLine_eq]
      rfl

/-- A program is printed without more spaces than its elements have. -/
theorem lines_eq (indent number : Nat) (program : List Statement) :
    program.flatMap (Statement.lines indent) =
      rowLines (fun _ _ => 0) number (program.flatMap (Statement.rows indent)) := by
  induction program generalizing number with
  | nil => rfl
  | cons statement rest ih =>
      rw [List.flatMap_cons, List.flatMap_cons, rowLines_append, ← Statement.lines_eq, ih]

theorem Yields.program {names : Names} (hnames : AllNames names) {reading : Reading}
    {done : List Node} {number indent : Nat} (hbetween : Between reading done)
    (program : List Statement) :
    Yields names {} reading number (program.flatMap (Statement.lines indent))
      (some (done ++ nodes number program)) := by
  have hnodes :=
    nodesRead_eq_iff.mpr (areHarmless_zero number (program.flatMap (Statement.rows indent)))
  have hyields :=
    @Yields.spaced names hnames reading done number indent (fun _ _ => 0) hbetween program
  rwa [hnodes, ← lines_eq] at hyields

/-- **Scanning and reading undo printing.**  A printed program is scanned without a fault, and its
token lines are read to the nodes of the program. -/
theorem read_lex_print (indent : Nat) (program : List Statement) :
    (lex {} (print indent program)).fault = none ∧
      Reader.read (lex {} (print indent program)).lines = .ok (nodes 1 program) :=
  Yields.program allNames_empty ⟨rfl, rfl, rfl⟩ program none

/-! ## Programs with spaces -/

/-- **Spaces do not matter** exactly as long as no tight element has more of them in front of it:
then, and only then, a program with more spaces is scanned without a fault and read to the
statements of the program. -/
theorem read_lex_printSpaced (indent : Nat) (program : List Statement) :
    printSpaced (fun _ _ => 0) indent program = print indent program ∧
      ∀ gaps : Nat → Gaps,
        ((lex {} (printSpaced gaps indent program)).fault = none ∧
            Reader.read (lex {} (printSpaced gaps indent program)).lines =
              Reader.read (lex {} (print indent program)).lines) ↔
          AreHarmless gaps 1 (program.flatMap (Statement.rows indent)) := by
  constructor
  · rw [printSpaced, print, lines_eq]
  intro gaps
  have hprinted : Reader.read (lex {} (print indent program)).lines = .ok (nodes 1 program) :=
    (Yields.program allNames_empty ⟨rfl, rfl, rfl⟩ program none).2
  have hspaced := @Yields.spaced {} allNames_empty {} [] 1 indent gaps ⟨rfl, rfl, rfl⟩ program none
  rw [hprinted, ← nodesRead_eq_iff]
  cases hnodes : nodesRead gaps 1 program with
  | none =>
      rw [hnodes] at hspaced
      constructor
      · intro hread
        exact absurd hread.1 hspaced
      · intro hread
        cases hread
  | some read =>
      rw [hnodes] at hspaced
      obtain ⟨hfault, hread⟩ := hspaced
      have hstatements : Reader.read (lex {} (printSpaced gaps indent program)).lines = .ok read :=
        hread
      rw [hstatements, Except.ok.injEq, Option.some.injEq]
      exact ⟨fun hsame => hsame.2, fun hsame => ⟨hfault, hsame⟩⟩

/-- Spaces in front of two tight elements: a size is read up to the end of its line, and the brace
that closes a conditional is refused. -/
theorem read_lex_tight :
    Reader.read (lex {} ["const x[2] : int = 3;\n"]).lines =
        .ok [.constant (.ofName (.text "x")) (.ofLiteral .number (.text "2]:int=3;\n"))
          (.ofType .int) (.ofLiteral .number (.text "3")) (.integer 1)] ∧
      (lex {} ["if (a == b) \x7b\n", "\x7d else \x7b\n", " \x7d\n"]).fault =
        some (.rejected (.missingSemicolon (.integer 3))) :=
  ⟨rfl, rfl⟩

end LineCompiler.Flat
