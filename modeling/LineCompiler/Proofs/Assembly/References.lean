import LineCompiler.Proofs.Assembly.Instructions
import LineCompiler.Proofs.Assembly.Lines
import LineCompiler.Proofs.Assembly.Returns

/-!
# Labels that are named and labels that are printed

A label is printed only if code was written under it, but it is named by a call or a jump in any
case: the main routine is always called, and a conditional jumps to both of its blocks.  So the
label of the main routine is missing from a program that does nothing, and the label of a block
without statements is missing unless another block has drawn the same label and has a statement
(`references_generateFor`).
-/

namespace LineCompiler

open Generate

/-- The operations that name a label. -/
def branchWords : List String :=
  ["call", "je", "jne", "jg", "jge", "jl", "jle"]

/-- A line is a call of a label or a conditional jump to it. -/
def BranchesTo (line label : String) : Prop :=
  ∃ word ∈ branchWords, line = instruction (word ++ " " ++ label)

/-- A line of a section names a label. -/
def IsNamed (blocks : List Block) (label : String) : Prop :=
  ∃ block ∈ blocks, ∃ line ∈ block.lines, BranchesTo line label

/-- A label is printed, with its code behind it. -/
def IsPrinted (blocks : List Block) (label : String) : Prop :=
  ∃ block ∈ blocks, block.label = label ∧ block.lines ≠ [] ∧
    block.text = label ++ ":\n" ++ String.join block.lines

instance (line label : String) : Decidable (BranchesTo line label) :=
  inferInstanceAs (Decidable (∃ word ∈ branchWords, _))

instance (blocks : List Block) (label : String) : Decidable (IsNamed blocks label) :=
  inferInstanceAs (Decidable (∃ block ∈ blocks, ∃ line ∈ block.lines, _))

instance (blocks : List Block) (label : String) : Decidable (IsPrinted blocks label) :=
  inferInstanceAs (Decidable (∃ block ∈ blocks, _))

/-! ## Which lines name a label -/

section Lines

variable {line label target : String}

theorem branchesTo_instruction :
    BranchesTo (instruction line) label ↔ ∃ word ∈ branchWords, line = word ++ " " ++ label := by
  refine exists_congr fun word => and_congr_right fun _ => ⟨fun heq => ?_, congrArg instruction⟩
  exact (String.append_right_inj "\t").mp ((String.append_left_inj "\n").mp heq)

theorem space_not_mem_branchWords : ∀ word ∈ branchWords, ' ' ∉ word.toList := by
  decide

private theorem not_branchesTo_of_mnemonic (hline : mnemonic line ∉ branchWords) :
    ¬ BranchesTo (instruction line) label := by
  rw [branchesTo_instruction]
  rintro ⟨word, hword, rfl⟩
  exact hline (by rwa [mnemonic_append (space_not_mem_branchWords word hword)])

private theorem not_mem_branchWords_of_straight : ∀ word ∈ straightWords, word ∉ branchWords := by
  decide

theorem jump_mem_branchWords (relation : Relation) : jump relation ∈ branchWords := by
  cases relation <;> decide

theorem branchesTo_word {word : String} (hword : word ∈ branchWords) :
    BranchesTo (instruction (word ++ " " ++ target)) label ↔ label = target := by
  rw [branchesTo_instruction]
  constructor
  · rintro ⟨other, hother, heq⟩
    have hmnemonic := congrArg mnemonic heq
    rw [mnemonic_append (space_not_mem_branchWords word hword),
      mnemonic_append (space_not_mem_branchWords other hother)] at hmnemonic
    subst hmnemonic
    exact ((String.append_right_inj _).mp heq).symm
  · rintro rfl
    exact ⟨word, hword, rfl⟩

/-- Some of the lines names a label. -/
def NamedIn (lines : List String) (label : String) : Prop :=
  ∃ line ∈ lines, BranchesTo line label

theorem not_namedIn_nil (label : String) : ¬ NamedIn [] label := by
  rintro ⟨line, hline, -⟩
  exact absurd hline List.not_mem_nil

theorem namedIn_append {first second : List String} :
    NamedIn (first ++ second) label ↔ NamedIn first label ∨ NamedIn second label := by
  simp only [NamedIn, List.mem_append, or_and_right, exists_or]

theorem namedIn_cons {lines : List String} :
    NamedIn (line :: lines) label ↔ BranchesTo line label ∨ NamedIn lines label := by
  simp only [NamedIn, List.mem_cons, or_and_right, exists_or, exists_eq_left]

theorem not_namedIn_of_mnemonic {code : List String}
    (hcode : ∀ line ∈ code, mnemonic line ∉ branchWords) :
    ¬ NamedIn (code.map instruction) label := by
  rintro ⟨line, hline, hbranches⟩
  obtain ⟨text, htext, rfl⟩ := List.mem_map.mp hline
  exact not_branchesTo_of_mnemonic (hcode text htext) hbranches

theorem not_namedIn_straight {code : List String}
    (hcode : ∀ line ∈ code, mnemonic line ∈ straightWords) :
    ¬ NamedIn (code.map instruction) label :=
  not_namedIn_of_mnemonic fun line hline => not_mem_branchWords_of_straight _ (hcode line hline)

theorem not_namedIn_return (label : String) : ¬ NamedIn [returnLine] label :=
  @not_namedIn_of_mnemonic label ["ret"] (by decide)

private theorem not_branchesTo_of_head (hline : line.toList.head? ≠ some '\t') :
    ¬ BranchesTo line label := by
  rintro ⟨word, -, rfl⟩
  exact hline (by simp [instruction])

/-- Of the lines that every program starts with, one names the main routine. -/
theorem namedIn_startLines : NamedIn startLines label ↔ label = mainLabel := by
  have hsplit : startLines = ["global _start\n", "_start:\n"] ++
      (instruction ("call" ++ " " ++ mainLabel) ::
        ["mov rax, 60", "mov rdi, 0", "syscall"].map instruction) := by decide
  have hfront : ¬ NamedIn ["global _start\n", "_start:\n"] label := by
    have hheads : ∀ line ∈ ["global _start\n", "_start:\n"], line.toList.head? ≠ some '\t' := by
      decide
    rintro ⟨line, hline, hbranches⟩
    exact not_branchesTo_of_head (hheads line hline) hbranches
  have hback : ¬ NamedIn (["mov rax, 60", "mov rdi, 0", "syscall"].map instruction) label :=
    not_namedIn_straight (by decide)
  rw [hsplit, namedIn_append, or_iff_right hfront, namedIn_cons, or_iff_left hback,
    branchesTo_word (by decide)]

end Lines

/-! ## Which lines of a statement name a label -/

namespace Generate

variable {names : Names} {label : String} {draws : Draws}

private theorem not_namedIn_plain {node : Node} (hplain : node.isConditional = false)
    (hok : (statement names label draws node).fault = none) (target : String) :
    ¬ NamedIn (ownLines names draws.stream draws.taken node) target := by
  obtain ⟨code, hcode⟩ := ownCode_of_fault hok
  rw [ownLines, hcode]
  rcases ownCode_cases hcode with ⟨hstraight, -⟩ | ⟨_, _, hconditional, -⟩
  · exact not_namedIn_straight hstraight
  · rw [hplain] at hconditional
    cases hconditional

private theorem namedIn_ifElse {condition thenBlock elseBlock : Node}
    (hok : (statement names label draws (.ifElse condition thenBlock elseBlock)).fault = none)
    (target : String) :
    NamedIn (ownLines names draws.stream draws.taken
      (.ifElse condition thenBlock elseBlock)) target ↔
      target = thenLabelAt draws.stream draws.taken ∨
      target = elseLabelAt draws.stream draws.taken := by
  obtain ⟨code, hcode⟩ := ownCode_of_fault hok
  rcases ownCode_cases hcode with ⟨-, hplain⟩ | ⟨compared, relation, -, hstraight, rfl⟩
  · cases hplain
  · have hlines : ownLines names draws.stream draws.taken (.ifElse condition thenBlock elseBlock) =
        compared.map instruction ++
          [instruction (jump relation ++ " " ++ thenLabelAt draws.stream draws.taken),
            instruction (jump (opposite relation) ++ " " ++
              elseLabelAt draws.stream draws.taken)] := by
      rw [ownLines, hcode]
      exact List.map_append
    rw [hlines, namedIn_append, or_iff_right (not_namedIn_straight hstraight), namedIn_cons,
      namedIn_cons, branchesTo_word (jump_mem_branchWords _),
      branchesTo_word (jump_mem_branchWords _)]
    exact or_congr_right (or_iff_left (not_namedIn_nil target))

/-- Some line of blocks names a label. -/
def NamedInside (names : Names) (stream : Nat → Int) (placed : List Placed) (label : String) :
    Prop :=
  ∃ block ∈ placed, NamedIn (block.lines names stream) label

theorem namedInside_append {stream : Nat → Int} {first second : List Placed} :
    NamedInside names stream (first ++ second) label ↔
      NamedInside names stream first label ∨ NamedInside names stream second label := by
  simp only [NamedInside, List.mem_append, or_and_right, exists_or]

theorem namedInside_cons {stream : Nat → Int} {first : Placed} {rest : List Placed} :
    NamedInside names stream (first :: rest) label ↔
      NamedIn (first.lines names stream) label ∨ NamedInside names stream rest label := by
  simp only [NamedInside, List.mem_cons, or_and_right, exists_or, exists_eq_left]

/-- The lines of a statement and of the blocks in it name exactly the labels of these blocks. -/
def NamesItsBlocks (node : Node) : Prop :=
  ∀ (names : Names) (label target : String) (draws : Draws),
    (statement names label draws node).fault = none →
    (NamedIn (ownLines names draws.stream draws.taken node) target ∨
        NamedInside names draws.stream (blocksOf draws.stream draws.taken node) target ↔
      target ∈ (blocksOf draws.stream draws.taken node).map Placed.label)

theorem named_sequence_of {nodes : List Node} (hnodes : ∀ node ∈ nodes, NamesItsBlocks node)
    {ending : List String} {target : String} (hending : ¬ NamedIn ending target)
    (hok : (sequence names label ending draws nodes).fault = none) :
    NamedIn (linesOf names draws.stream ending draws.taken nodes) target ∨
        NamedInside names draws.stream (blocksOfAll draws.stream draws.taken nodes) target ↔
      target ∈ (blocksOfAll draws.stream draws.taken nodes).map Placed.label := by
  induction nodes generalizing draws with
  | nil => simp [linesOf, blocksOfAll, NamedIn, NamedInside]
  | cons node rest ih =>
      obtain ⟨hnode, hrest, -⟩ := sequence_cons hok
      rw [statement_draws node names label draws hnode] at hrest
      have hfirst := hnodes node (List.mem_cons_self ..) names label target draws hnode
      have hothers := ih (fun other hother => hnodes other (List.mem_cons_of_mem _ hother)) hrest
      rw [linesOf, blocksOfAll, namedIn_append, namedIn_append, or_iff_left hending,
        namedInside_append, or_or_or_comm, hfirst, List.map_append, List.mem_append]
      exact or_congr_right hothers

/-- **The labels that a statement names** are those of the blocks in it. -/
theorem namesItsBlocks_statement (node : Node) : NamesItsBlocks node := by
  induction node using Node.blockInduction with
  | plain node hplain =>
      intro names label target draws hok
      rw [or_iff_right (not_namedIn_plain hplain hok target), blocksOf_plain hplain]
      simp [NamedInside]
  | conditional condition thenBlock elseBlock hthen helse =>
      intro names label target draws hok
      obtain ⟨_, _, _, _, -, rfl, hthenOk, rfl, helseOk, -⟩ := written_ifElse hok
      -- The jumps name the two blocks, and the lines of each block the blocks in it.
      have hthenNamed := named_sequence_of hthen (not_namedIn_return target) hthenOk
      have helseNamed := named_sequence_of helse (not_namedIn_return target) helseOk
      rw [namedIn_ifElse hok, blocksOf_ifElse, namedInside_append, namedInside_cons,
        namedInside_cons, Nat.add_assoc, List.map_append, List.map_cons, List.map_cons,
        List.mem_append, List.mem_cons, List.mem_cons, or_or_or_comm]
      exact or_congr (or_congr_right hthenNamed) (or_congr_right helseNamed)

/-! ## The text section -/

section Text

variable {program : Program}

/-- **Which labels are named**: that of the main routine, and those of all blocks. -/
theorem isNamed_iff (hok : (Generate.program draws program).fault = none) (target : String) :
    IsNamed (Sections.apply {} (Generate.program draws program).writes).text target ↔
      target = mainLabel ∨
        target ∈ (blocksOfAll draws.stream draws.taken program.statements).map Placed.label := by
  have hnamed :=
    named_sequence_of (fun node _ => namesItsBlocks_statement node) (not_namedIn_nil target)
      (program_of_fault hok).1
  rw [← hnamed, ← namedIn_startLines]
  constructor
  · rintro ⟨block, hblock, line, hline, hbranches⟩
    rcases (mem_text_iff hok).mp ⟨block, hblock, hline⟩
      with hstart | hmain | ⟨placed, hplaced, hinside⟩
    · exact Or.inl ⟨line, hstart, hbranches⟩
    · exact Or.inr (Or.inl ⟨line, hmain, hbranches⟩)
    · exact Or.inr (Or.inr ⟨placed, hplaced, line, hinside, hbranches⟩)
  · intro hnames
    obtain ⟨line, hline, hbranches⟩ : ∃ line, (∃ block ∈ (Sections.apply {}
        (Generate.program draws program).writes).text, line ∈ block.lines) ∧
        BranchesTo line target := by
      simp only [mem_text_iff hok]
      rcases hnames with ⟨line, hstart, hbranches⟩ | ⟨line, hmain, hbranches⟩ |
        ⟨placed, hplaced, line, hinside, hbranches⟩
      · exact ⟨line, Or.inl hstart, hbranches⟩
      · exact ⟨line, Or.inr (Or.inl hmain), hbranches⟩
      · exact ⟨line, Or.inr (Or.inr ⟨placed, hplaced, hinside⟩), hbranches⟩
    obtain ⟨block, hblock, hmem⟩ := hline
    exact ⟨block, hblock, line, hmem, hbranches⟩

/-- A label without a colon is printed if there are lines under it. -/
theorem isPrinted_iff {blocks : List Block} {target : String} (hnone : target ≠ noLabel)
    (hcolon : ':' ∉ target.toList) : IsPrinted blocks target ↔ linesUnder target blocks ≠ [] := by
  constructor
  · rintro ⟨block, hblock, rfl, hlines, -⟩
    obtain ⟨line, hline⟩ := List.exists_mem_of_ne_nil _ hlines
    exact List.ne_nil_of_mem (mem_linesUnder.mpr ⟨block, hblock, rfl, hline⟩)
  · intro hlines
    obtain ⟨line, hline⟩ := List.exists_mem_of_ne_nil _ hlines
    obtain ⟨block, hblock, rfl, hmem⟩ := mem_linesUnder.mp hline
    refine ⟨block, hblock, rfl, List.ne_nil_of_mem hmem, ?_⟩
    have hempty : block.lines.isEmpty = false := by simpa using List.ne_nil_of_mem hmem
    simp [Block.text, hempty, hnone, hcolon, String.append_assoc]

theorem colon_not_mem_blockLabels {target : String} {position : Nat} {nodes : List Node}
    {stream : Nat → Int} (htarget : target ∈ (blocksOfAll stream position nodes).map Placed.label) :
    target ≠ noLabel ∧ target ≠ mainLabel ∧ ':' ∉ target.toList := by
  rw [(map_label_blocksOfAll_perm _ _).mem_iff] at htarget
  refine ⟨?_, ?_, ?_⟩
  · rintro rfl
    exact not_mem_labelsAt (by decide) (by decide) _ htarget
  · rintro rfl
    exact not_mem_labelsAt (by decide) (by decide) _ htarget
  · have hdigits : ∀ number : Nat, ':' ∉ Nat.toDigits 10 number := by
      intro number hmem
      exact absurd (Nat.isDigit_of_mem_toDigits (by decide) (by decide) hmem) (by decide)
    rw [labelsAt, List.mem_append, List.mem_map, List.mem_map] at htarget
    rcases htarget with ⟨position, -, rfl⟩ | ⟨position, -, rfl⟩
    · simp [thenLabelAt, hdigits]
    · simp [elseLabelAt, hdigits]

/-- **Which labels are printed**: that of the main routine if the program does something, and those
of blocks with a statement. -/
theorem not_isPrinted_iff (hok : (Generate.program draws program).fault = none) {target : String}
    (hnamed : target = mainLabel ∨
      target ∈ (blocksOfAll draws.stream draws.taken program.statements).map Placed.label) :
    ¬ IsPrinted (Sections.apply {} (Generate.program draws program).writes).text target ↔
      (target = mainLabel → ∀ node ∈ program.statements, node.isExecutable = false) ∧
        ∀ placed ∈ blocksOfAll draws.stream draws.taken program.statements,
          placed.label = target → placed.statements = [] := by
  have htarget : target ≠ noLabel ∧ ':' ∉ target.toList := by
    rcases hnamed with rfl | hblock
    · decide
    · exact ⟨(colon_not_mem_blockLabels hblock).1, (colon_not_mem_blockLabels hblock).2.2⟩
  rw [isPrinted_iff htarget.1 htarget.2, Decidable.not_not, ← List.length_eq_zero_iff,
    (linesUnder_perm hok target).length_eq, List.length_eq_zero_iff, List.append_eq_nil_iff,
    List.append_eq_nil_iff, seenFrom_eq_nil_iff, linesWith_eq_nil_iff, seenFrom_eq_nil_iff,
    linesOf_eq_nil_iff (program_of_fault hok).1]
  constructor
  · rintro ⟨-, hmain, hblocks⟩
    exact ⟨fun heq => hmain heq.symm, hblocks⟩
  · rintro ⟨hmain, hblocks⟩
    exact ⟨fun heq => absurd heq.symm htarget.1, fun heq => hmain heq.symm, hblocks⟩

/-- **Which labels are named but not printed.** -/
theorem missing_iff (hok : (Generate.program draws program).fault = none) (target : String) :
    IsNamed (Sections.apply {} (Generate.program draws program).writes).text target ∧
        ¬ IsPrinted (Sections.apply {} (Generate.program draws program).writes).text target ↔
      target = mainLabel ∧ (∀ node ∈ program.statements, node.isExecutable = false) ∨
      target ∈ (blocksOfAll draws.stream draws.taken program.statements).map Placed.label ∧
        ∀ placed ∈ blocksOfAll draws.stream draws.taken program.statements,
          placed.label = target → placed.statements = [] := by
  constructor
  · rintro ⟨hnamed, hprinted⟩
    have hlabel := (isNamed_iff hok target).mp hnamed
    obtain ⟨hmain, hblocks⟩ := (not_isPrinted_iff hok hlabel).mp hprinted
    rcases hlabel with heq | hmem
    · exact Or.inl ⟨heq, hmain heq⟩
    · exact Or.inr ⟨hmem, hblocks⟩
  · -- No block has the label of the main routine, so the two cases do not meet.
    rintro (⟨rfl, hmain⟩ | ⟨hmem, hblocks⟩)
    · refine ⟨(isNamed_iff hok _).mpr (Or.inl rfl),
        (not_isPrinted_iff hok (Or.inl rfl)).mpr ⟨fun _ => hmain, fun placed hplaced heq => ?_⟩⟩
      exact absurd heq (colon_not_mem_blockLabels (List.mem_map_of_mem hplaced)).2.1
    · refine ⟨(isNamed_iff hok _).mpr (Or.inr hmem),
        (not_isPrinted_iff hok (Or.inr hmem)).mpr ⟨fun heq => ?_, hblocks⟩⟩
      exact absurd heq (colon_not_mem_blockLabels hmem).2.1

end Text

end Generate

/-- **Which labels are named but not printed.**  For every program and all draws, these are the
label of the main routine, if no statement outside all blocks does anything, and the labels that
only blocks without statements have drawn.  So every label that is named is printed just in case the
program does something and every block, or another block with the same label, has a statement. -/
theorem references_generateFor {draws : Draws} {program : Program}
    (hok : (Session.generateFor { draws } program).1 = none) :
    (∀ label,
      IsNamed (Session.generateFor { draws } program).2.sections.text label ∧
          ¬ IsPrinted (Session.generateFor { draws } program).2.sections.text label ↔
        label = mainLabel ∧ (∀ node ∈ program.statements, node.isExecutable = false) ∨
        label ∈ (blocksOfAll draws.stream draws.taken program.statements).map Placed.label ∧
          ∀ placed ∈ blocksOfAll draws.stream draws.taken program.statements,
            placed.label = label → placed.statements = []) ∧
    ((∀ label, IsNamed (Session.generateFor { draws } program).2.sections.text label →
        IsPrinted (Session.generateFor { draws } program).2.sections.text label) ↔
      (∃ node ∈ program.statements, node.isExecutable = true) ∧
        ∀ placed ∈ blocksOfAll draws.stream draws.taken program.statements,
          ∃ other ∈ blocksOfAll draws.stream draws.taken program.statements,
            other.label = placed.label ∧ other.statements ≠ []) := by
  refine ⟨missing_iff hok, fun hclosed => ⟨?_, fun placed hplaced => ?_⟩, ?_⟩
  · refine Decidable.byContradiction fun hnone => ?_
    obtain ⟨hnamed, hprinted⟩ := (missing_iff hok mainLabel).mpr
      (Or.inl ⟨rfl, fun node hnode =>
        Bool.eq_false_iff.mpr fun htrue => hnone ⟨node, hnode, htrue⟩⟩)
    exact hprinted (hclosed mainLabel hnamed)
  · refine Classical.byContradiction fun hnone => ?_
    obtain ⟨hnamed, hprinted⟩ := (missing_iff hok placed.label).mpr
      (Or.inr ⟨List.mem_map_of_mem hplaced, fun other hother hlabel =>
        Classical.byContradiction fun hne => hnone ⟨other, hother, hlabel, hne⟩⟩)
    exact hprinted (hclosed placed.label hnamed)
  · rintro ⟨⟨node, hnode, htrue⟩, hblocks⟩ label hnamed
    refine Decidable.byContradiction fun hprinted => ?_
    rcases (missing_iff hok label).mp ⟨hnamed, hprinted⟩ with ⟨-, hmain⟩ | ⟨hmem, hempty⟩
    · rw [hmain node hnode] at htrue
      exact nomatch htrue
    · obtain ⟨placed, hplaced, rfl⟩ := List.mem_map.mp hmem
      obtain ⟨other, hother, hlabel, hne⟩ := hblocks placed hplaced
      exact hne (hempty other hother hlabel)

theorem references_generateFor_nestedProgram :
    IsNamed (Session.generateFor { draws := .ofList [] } nestedProgram).2.sections.text
      "if_block_1026" ∧
      ¬ IsPrinted (Session.generateFor { draws := .ofList [] } nestedProgram).2.sections.text
        "if_block_1026" := by
  obtain ⟨hmissing, -⟩ := @references_generateFor (.ofList []) nestedProgram (by decide +kernel)
  have hempty : ∀ placed ∈ blocksOfAll (Draws.ofList []).stream 0 nestedProgram.statements,
      placed.label = "if_block_1026" → placed.statements.isEmpty = true := by decide +kernel
  refine (hmissing "if_block_1026").mpr
    (Or.inr ⟨by decide +kernel, fun placed hplaced hlabel => ?_⟩)
  exact List.isEmpty_iff.mp (hempty placed hplaced hlabel)

/-- A conditional without statements in its second block. -/
def emptyElse : Program where
  statements :=
    [.ifElse (.compare (.ofName (.text "a")) (.ofName (.text "b")) (.relation .equal))
      (.list [.syscall (.text "60") (.list [.text "0"]) (.ofName (.text "e"))]) (.list [])]

/-- Its code jumps to a label that is not printed. -/
theorem missing_emptyElse :
    (Session.generateFor { draws := .ofList [] } emptyElse).1 = none ∧
      IsNamed (Session.generateFor { draws := .ofList [] } emptyElse).2.sections.text
        "else_block_1008" ∧
      ¬ IsPrinted (Session.generateFor { draws := .ofList [] } emptyElse).2.sections.text
        "else_block_1008" := by
  decide +kernel

end LineCompiler
