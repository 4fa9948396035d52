import LineCompiler.Proofs.Assembly.Blocks
import LineCompiler.Proofs.Assembly.Instructions

/-!
# Where code returns

A routine is left by a return.  In generated code a return follows every statement of a block, so a
block is left after its first statement, and the main routine has no return at all.  The code of a
label is bracketed, with one return and that at its end, only if it is a block with a single
statement.  Since every program that does something has a main routine, a program whose labels all
are bracketed has no label.
-/

namespace LineCompiler

namespace Generate

/-! ## A statement does not return -/

/-- An instruction other than a return, told by its first letter. -/
def Proceeds (line : String) : Prop :=
  line.toList.head? ≠ some 'r'

private theorem returnLine_not_mem_map {code : List String} (hcode : ∀ line ∈ code, Proceeds line) :
    returnLine ∉ code.map instruction := by
  intro hmem
  obtain ⟨line, hline, heq⟩ := List.mem_map.mp hmem
  have hret : line = "ret" :=
    (String.append_right_inj "\t").mp ((String.append_left_inj "\n").mp heq)
  exact hcode line hline (hret ▸ rfl)

theorem proceeds_of_straight {line : String} (hline : mnemonic line ∈ straightWords) :
    Proceeds line := by
  have hwords : ∀ word ∈ straightWords, word.toList.head? ≠ some 'r' := by decide
  intro hhead
  obtain ⟨rest, hrest⟩ := List.head?_eq_some_iff.mp hhead
  exact hwords _ hline (by simp [mnemonic, hrest])

theorem proceeds_jump (relation : Relation) (label : String) :
    Proceeds (jump relation ++ " " ++ label) := by
  cases relation <;> simp [Proceeds, jump]

/-- **No statement returns.** -/
theorem returnLine_not_mem_ownLines (names : Names) (stream : Nat → Int) (position : Nat)
    (node : Node) : returnLine ∉ ownLines names stream position node := by
  rw [ownLines]
  refine returnLine_not_mem_map ?_
  cases hcode : ownCode names stream position node with
  | error fault => exact fun line hline => absurd hline List.not_mem_nil
  | ok code =>
      show ∀ line ∈ code, Proceeds line
      rcases ownCode_cases hcode with ⟨hstraight, -⟩ | ⟨compared, relation, -, hstraight, rfl⟩
      · exact fun line hline => proceeds_of_straight (hstraight line hline)
      · simp only [List.forall_mem_append, List.forall_mem_cons]
        exact ⟨fun line hline => proceeds_of_straight (hstraight line hline), proceeds_jump _ _,
          proceeds_jump _ _, fun line hline => absurd hline List.not_mem_nil⟩

/-! ## The returns of the main routine and of blocks -/

variable (names : Names) (stream : Nat → Int)

theorem returnLine_not_mem_linesOf (position : Nat) (nodes : List Node) :
    returnLine ∉ linesOf names stream [] position nodes := by
  induction nodes generalizing position with
  | nil => exact List.not_mem_nil
  | cons node rest ih =>
      rw [linesOf, List.append_nil, List.mem_append, not_or]
      exact ⟨returnLine_not_mem_ownLines names stream position node, ih _⟩

private theorem count_returnLine_linesOf (position : Nat) (nodes : List Node) :
    (linesOf names stream [returnLine] position nodes).count returnLine = nodes.length := by
  induction nodes generalizing position with
  | nil => rfl
  | cons node rest ih =>
      rw [linesOf, List.count_append, List.count_append, ih,
        List.count_eq_zero.mpr (returnLine_not_mem_ownLines names stream position node),
        List.count_singleton_self, List.length_cons]
      omega

private theorem getLast?_linesOf {nodes : List Node} (hnodes : nodes ≠ []) (position : Nat) :
    (linesOf names stream [returnLine] position nodes).getLast? = some returnLine := by
  induction nodes generalizing position with
  | nil => exact absurd rfl hnodes
  | cons node rest ih =>
      rw [linesOf, List.getLast?_append]
      by_cases hrest : rest = []
      · rw [hrest, linesOf, List.getLast?_concat]
        rfl
      · rw [ih hrest]
        rfl

private theorem takeWhile_linesOf (position : Nat) (node : Node) (rest : List Node) :
    (linesOf names stream [returnLine] position (node :: rest)).takeWhile (· ≠ returnLine) =
      ownLines names stream position node := by
  have hown : ∀ line ∈ ownLines names stream position node, decide (line ≠ returnLine) = true := by
    intro line hline
    have hne : line ≠ returnLine := fun heq =>
      returnLine_not_mem_ownLines names stream position node (heq ▸ hline)
    simpa using hne
  rw [linesOf, List.append_assoc, List.takeWhile_append_of_pos hown, List.singleton_append,
    List.takeWhile_cons_of_neg (by simp), List.append_nil]

end Generate

/-- The code of a label ends with a return, and has no other. -/
def Block.Bracketed (block : Block) : Prop :=
  block.lines.getLast? = some Generate.returnLine ∧ Generate.returnLine ∉ block.lines.dropLast

instance (block : Block) : Decidable block.Bracketed :=
  inferInstanceAs (Decidable (_ ∧ _))

private theorem Block.bracketed_iff {block : Block}
    (hlast : block.lines.getLast? = some Generate.returnLine) :
    block.Bracketed ↔ block.lines.count Generate.returnLine = 1 := by
  have hcount : block.lines.count Generate.returnLine =
      block.lines.dropLast.count Generate.returnLine + 1 := by
    have hne : block.lines ≠ [] := fun hnil => nomatch hnil ▸ hlast
    rw [List.getLast?_eq_some_getLast hne, Option.some_inj] at hlast
    calc block.lines.count Generate.returnLine
        = (block.lines.dropLast ++ [block.lines.getLast hne]).count Generate.returnLine := by
          rw [List.dropLast_concat_getLast hne]
      _ = block.lines.dropLast.count Generate.returnLine + 1 := by
          rw [List.count_append, hlast, List.count_singleton_self]
  rw [Bracketed, hcount, ← List.count_eq_zero]
  constructor
  · rintro ⟨-, hzero⟩
    omega
  · intro hone
    exact ⟨hlast, by omega⟩

/-- A block of a conditional ends with a return, but is left after its first statement. -/
theorem Generate.returns_code {names : Names} {stream : Nat → Int} {placed : Placed} {block : Block}
    (hblock : block ∈ placed.code names stream) :
    ∃ first rest, placed.statements = first :: rest ∧
      block.label = placed.label ∧
      block.lines.getLast? = some returnLine ∧
      block.lines.count returnLine = placed.statements.length ∧
      block.lines.takeWhile (· ≠ returnLine) = ownLines names stream placed.position first ∧
      (block.Bracketed ↔ rest = []) := by
  obtain ⟨hlines, rfl⟩ := mem_present.mp hblock
  cases hstatements : placed.statements with
  | nil =>
      rw [hstatements] at hlines
      exact absurd rfl hlines
  | cons first rest =>
      have hlast := getLast?_linesOf names stream (List.cons_ne_nil first rest) placed.position
      have hcount := count_returnLine_linesOf names stream placed.position (first :: rest)
      refine ⟨first, rest, rfl, rfl, hlast, hcount, takeWhile_linesOf _ _ _ _ _, ?_⟩
      rw [Block.bracketed_iff hlast, hcount, List.length_cons]
      simp

/-- Whether a statement does something when the program runs. -/
def Node.isExecutable : Node → Bool
  | .arithmetic _ _ _ _ | .syscall _ _ _ | .ifElse _ _ _ => true
  | _ => false

private theorem Node.isConditional_of_not_executable {node : Node}
    (hnode : node.isExecutable = false) :
    node.isConditional = false := by
  cases node with
  | ifElse condition thenBlock elseBlock => exact nomatch hnode
  | _ => rfl

namespace Generate

variable {names : Names} {label : String} {draws : Draws}

/-! ## Programs without a main routine -/

private theorem ownCode_ne_nil {stream : Nat → Int} {position : Nat} {node : Node}
    {code : List String} (hnode : node.isExecutable = true)
    (hcode : ownCode names stream position node = .ok code) :
    code ≠ [] := by
  cases node with
  | arithmetic kind left right result => exact operationLines_ne_nil hcode
  | syscall number arguments error =>
      obtain ⟨name, -, hcode⟩ := exists_of_bind_eq_ok hcode
      obtain ⟨items, -, hcode⟩ := exists_of_bind_eq_ok hcode
      obtain ⟨texts, -, hcode⟩ := exists_of_bind_eq_ok hcode
      cases hcode
      exact List.cons_ne_nil _ _
  | ifElse condition thenBlock elseBlock =>
      obtain ⟨compared, -, hcode⟩ := exists_of_bind_eq_ok hcode
      obtain ⟨relation, -, hcode⟩ := exists_of_bind_eq_ok hcode
      cases hcode
      simp
  | _ => exact nomatch hnode

theorem ownCode_of_fault {node : Node} (hok : (statement names label draws node).fault = none) :
    ∃ code, ownCode names draws.stream draws.taken node = .ok code := by
  by_cases hplain : node.isConditional = false
  · obtain ⟨pieces, -, hcode, -⟩ := statement_plain hplain hok
    exact ⟨_, hcode _ _⟩
  · cases node with
    | ifElse condition thenBlock elseBlock =>
        obtain ⟨compared, relation, -, -, hcompared, hrelation, -⟩ := statement_ifElse hok
        rw [ownCode, conditionLines, hcompared, hrelation]
        exact ⟨_, rfl⟩
    | _ => exact absurd rfl hplain

private theorem ownLines_eq_nil_iff {node : Node}
    (hok : (statement names label draws node).fault = none) :
    ownLines names draws.stream draws.taken node = [] ↔ node.isExecutable = false := by
  obtain ⟨code, hcode⟩ := ownCode_of_fault hok
  have hlines : ownLines names draws.stream draws.taken node = code.map instruction := by
    rw [ownLines, hcode]
    rfl
  rw [hlines, List.map_eq_nil_iff]
  constructor
  · intro hnil
    cases hnode : node.isExecutable with
    | false => rfl
    | true => exact absurd hnil (ownCode_ne_nil hnode hcode)
  · intro hnode
    cases node with
    | arithmetic | syscall | ifElse => cases hnode
    | _ => exact (Except.ok.inj hcode).symm

/-- Statements have no lines if none of them does anything. -/
theorem linesOf_eq_nil_iff {nodes : List Node}
    (hok : (sequence names label [] draws nodes).fault = none) :
    linesOf names draws.stream [] draws.taken nodes = [] ↔
      ∀ node ∈ nodes, node.isExecutable = false := by
  induction nodes generalizing draws with
  | nil => exact ⟨fun _ node hnode => absurd hnode List.not_mem_nil, fun _ => rfl⟩
  | cons node rest ih =>
      obtain ⟨hnode, hrest, -⟩ := sequence_cons hok
      rw [statement_draws node names label draws hnode] at hrest
      rw [linesOf, List.append_nil, List.append_eq_nil_iff, ownLines_eq_nil_iff hnode,
        List.forall_mem_cons]
      exact and_congr_right fun _ => ih hrest

end Generate

open Generate

/-- **Where code returns.**  The main routine has no return.  A block of a conditional ends with
one, but has as many as it has statements, and what is run of it before the first one is the code of
its first statement only; so it is bracketed just in case it has a single statement.  All labels are
bracketed only if there are none, that is, if no statement outside all blocks does anything. -/
theorem returns_generateFor {draws : Draws} {program : Program}
    (hok : (Session.generateFor { draws } program).1 = none)
    (hlabels : ((blocksOfAll draws.stream draws.taken program.statements).map Placed.label).Nodup) :
    (∀ block ∈ (Session.generateFor { draws } program).2.sections.text, block.label ≠ noLabel →
      (block.label = mainLabel ∧ returnLine ∉ block.lines) ∨
      ∃ placed ∈ blocksOfAll draws.stream draws.taken program.statements,
        ∃ first rest, placed.statements = first :: rest ∧
          block.label = placed.label ∧
          block.lines.getLast? = some returnLine ∧
          block.lines.count returnLine = placed.statements.length ∧
          block.lines.takeWhile (· ≠ returnLine) =
            ownLines program.names draws.stream placed.position first ∧
          (block.Bracketed ↔ rest = [])) ∧
    ((∀ block ∈ (Session.generateFor { draws } program).2.sections.text,
        block.label ≠ noLabel → block.Bracketed) ↔
      ∀ node ∈ program.statements, node.isExecutable = false) := by
  have htext : (Session.generateFor { draws } program).2.sections.text = _ :=
    text_program hok hlabels
  have hlines := linesOf_eq_nil_iff (program_of_fault hok).1
  rw [htext]
  refine ⟨?_, ?_, ?_⟩
  · intro block hblock hlabel
    rcases List.mem_cons.mp hblock with rfl | hblock
    · exact absurd rfl hlabel
    rcases List.mem_append.mp hblock with hmain | hplaced
    · obtain ⟨-, rfl⟩ := mem_present.mp hmain
      exact Or.inl ⟨rfl, returnLine_not_mem_linesOf _ _ _ _⟩
    · obtain ⟨placed, hplaced, hcode⟩ := List.mem_flatMap.mp hplaced
      exact Or.inr ⟨placed, hplaced, returns_code hcode⟩
  · -- A main routine would be bracketed, and has no return.
    intro hbracketed
    rw [← hlines]
    refine Decidable.byContradiction fun hne => ?_
    have hmain := hbracketed ⟨mainLabel, _⟩
      (List.mem_cons_of_mem _ (List.mem_append_left _ (mem_present.mpr ⟨hne, rfl⟩)))
      (show mainLabel ≠ noLabel by decide)
    exact returnLine_not_mem_linesOf _ _ _ _ (List.mem_of_getLast? hmain.1)
  · intro hnodes block hblock hlabel
    rw [hlines.mpr hnodes, blocksOfAll_plain fun node hnode =>
      Node.isConditional_of_not_executable (hnodes node hnode)] at hblock
    rw [List.mem_singleton.mp hblock] at hlabel
    exact absurd rfl hlabel

theorem returns_generateFor_nestedProgram :
    (∀ block ∈ (Session.generateFor { draws := .ofList [] } nestedProgram).2.sections.text,
      block.label ≠ noLabel → block.label ≠ mainLabel → block.lines.getLast? = some returnLine) ∧
    ¬ ∀ block ∈ (Session.generateFor { draws := .ofList [] } nestedProgram).2.sections.text,
      block.label ≠ noLabel → block.Bracketed := by
  obtain ⟨hblocks, hbracketed⟩ :=
    @returns_generateFor (.ofList []) nestedProgram (by decide +kernel) (by decide +kernel)
  rw [hbracketed]
  refine ⟨fun block hblock hlabel hmain => ?_, by decide⟩
  rcases hblocks block hblock hlabel with ⟨heq, -⟩ | ⟨_, -, _, _, -, -, hlast, -⟩
  · exact absurd heq hmain
  · exact hlast

/-- A conditional with two operations in its first block. -/
def twoOperations : Program where
  statements :=
    [.ifElse (.compare (.ofName (.text "a")) (.ofName (.text "b")) (.relation .equal))
      (.list
        [.arithmetic .add (.ofName (.text "a")) (.ofName (.text "b"))
            (.reference .result (.ofName (.text "c"))),
          .arithmetic .multiply (.ofName (.text "a")) (.ofName (.text "b"))
            (.reference .result (.ofName (.text "d")))])
      (.list [])]
  names := {}

/-- Its main routine has no return, and its block returns before the second operation. -/
theorem text_twoOperations :
    (Session.generateFor { draws := .ofList [] } twoOperations).1 = none ∧
    ((blocksOfAll (Draws.ofList []).stream 0 twoOperations.statements).map Placed.label).Nodup ∧
    (Session.generateFor { draws := .ofList [] } twoOperations).2.sections.text =
      [⟨"no_label", startLines⟩,
        ⟨"main", ["\tmov eax, [a]\n", "\tcmp eax, [b]\n", "\tje if_block_1007\n",
          "\tjne else_block_1008\n"]⟩,
        ⟨"if_block_1007", ["\tmov rax, [a]\n", "\tadd rax, [b]\n", "\tmov [c], rax\n", "\tret\n",
          "\tmov rax, [a]\n", "\tmov rbx, [b]\n", "\timul rax, rbx\n", "\tmov [d], rax\n",
          "\tret\n"]⟩] ∧
    ¬ ∀ block ∈ (Session.generateFor { draws := .ofList [] } twoOperations).2.sections.text,
      block.label ≠ noLabel → block.Bracketed := by
  decide +kernel

end LineCompiler
