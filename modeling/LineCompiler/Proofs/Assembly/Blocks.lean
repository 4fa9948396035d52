import LineCompiler.Session
import LineCompiler.Proofs.Assembly.Sections
import LineCompiler.Proofs.Assembly.Statements

/-!
# The blocks of the text section

The code of a conditional is not written in one piece: between its comparison and its jumps, which
stand under the label of the block around it, all the code of its two blocks is written under labels
of their own.  If the labels are distinct, the text section nevertheless is what one would write
down by hand (`text_program`): the code that every program starts with, the code of the main
routine, and the code of each block of a conditional at any depth, in pre-order, without the blocks
that are empty.

The reason is that a label is either new or the one whose code is being written.  While a statement
is being written, the section is a front part, the block of the statement's label, and what stands
behind that block (`Standing`).  The statement adds its own lines to the block and its inner blocks
at the very end (`standing_statement`).
-/

namespace LineCompiler

namespace Generate

/-! ## Where blocks stand -/

/-- A block of a conditional: its label, how many draws were taken before its first statement, and
its statements. -/
structure Placed where
  label : String
  position : Nat
  statements : List Node

mutual

/-- The blocks of the conditionals in a statement before which `position` draws were taken, in
pre-order. -/
def blocksOf (stream : Nat → Int) (position : Nat) : Node → List Placed
  | .ifElse _ thenBlock elseBlock =>
      blocksIn stream (thenLabelAt stream position) (position + 10) thenBlock ++
        blocksIn stream (elseLabelAt stream position) (position + 10 + drawsOf thenBlock.walkBlock)
          elseBlock
  | _ => []

/-- A block and the blocks in it. -/
def blocksIn (stream : Nat → Int) (label : String) (position : Nat) : Node → List Placed
  | .list items => ⟨label, position, items⟩ :: blocksOfAll stream position items
  | block => [⟨label, position, block.inBlock⟩]

/-- The blocks of the conditionals in statements. -/
def blocksOfAll (stream : Nat → Int) (position : Nat) : List Node → List Placed
  | [] => []
  | node :: rest =>
      blocksOf stream position node ++ blocksOfAll stream (position + drawsOf node.walk) rest

end

/-- The lines of statements under their label, each with the same lines after it. -/
def linesOf (names : Names) (stream : Nat → Int) (ending : List String) (position : Nat) :
    List Node → List String
  | [] => []
  | node :: rest =>
      ownLines names stream position node ++ ending ++
        linesOf names stream ending (position + drawsOf node.walk) rest

/-- The code of a block, in which a return follows every statement. -/
def Placed.code (names : Names) (stream : Nat → Int) (placed : Placed) : List Block :=
  present placed.label (linesOf names stream [returnLine] placed.position placed.statements)

variable {stream : Nat → Int}

theorem blocksOf_plain {node : Node} (hplain : node.isConditional = false) (position : Nat) :
    blocksOf stream position node = [] := by
  cases node with
  | ifElse condition thenBlock elseBlock => exact nomatch hplain
  | _ => rfl

theorem blocksOfAll_plain {nodes : List Node} (hnodes : ∀ node ∈ nodes, node.isConditional = false)
    (position : Nat) : blocksOfAll stream position nodes = [] := by
  induction nodes generalizing position with
  | nil => rfl
  | cons node rest ih =>
      rw [blocksOfAll, blocksOf_plain (hnodes node (List.mem_cons_self ..)),
        ih fun other hother => hnodes other (List.mem_cons_of_mem _ hother), List.append_nil]

theorem blocksIn_eq (label : String) (position : Nat) (block : Node) :
    blocksIn stream label position block =
      ⟨label, position, block.inBlock⟩ :: blocksOfAll stream position block.inBlock := by
  by_cases hlist : ∃ items, block = .list items
  · obtain ⟨items, rfl⟩ := hlist
    rw [blocksIn]
    rfl
  · have hother : ∀ items, block = .list items → False := fun items heq => hlist ⟨items, heq⟩
    rw [blocksIn, blocksOfAll_plain]
    · intro item hitem
      obtain ⟨content, rfl⟩ := Node.text_of_mem_inBlock hother hitem
      rfl
    · exact hother

theorem blocksOf_ifElse (position : Nat) (condition thenBlock elseBlock : Node) :
    blocksOf stream position (.ifElse condition thenBlock elseBlock) =
      ⟨thenLabelAt stream position, position + 10, thenBlock.inBlock⟩ ::
          blocksOfAll stream (position + 10) thenBlock.inBlock ++
        ⟨elseLabelAt stream position,
            position + 10 + drawsOf (Node.walkAll thenBlock.inBlock), elseBlock.inBlock⟩ ::
          blocksOfAll stream (position + 10 + drawsOf (Node.walkAll thenBlock.inBlock))
            elseBlock.inBlock := by
  rw [blocksOf, blocksIn_eq, blocksIn_eq, Node.walkBlock_eq]

private theorem map_label_code_sublist (names : Names) (placed : List Placed) :
    ((placed.flatMap (Placed.code names stream)).map Block.label).Sublist
      (placed.map Placed.label) := by
  induction placed with
  | nil => exact List.Sublist.refl _
  | cons first rest ih =>
      rw [List.flatMap_cons, List.map_append, List.map_cons, ← List.singleton_append]
      exact (map_label_present_sublist _ _).append ih

/-! ## The block that is being written -/

/-- The blocks of a section while code is written under a label: those before the block of the
label, which has the given lines, and those after it. -/
structure Standing (before : List Block) (label : String) (lines : List String)
    (after text : List Block) : Prop where
  eq : text = before ++ present label lines ++ after
  first : lines = [] → after = []
  fresh : label ∉ before.map Block.label

namespace Standing

variable {before after text later more : List Block} {label : String} {lines code : List String}

theorem start (hlabel : label ∉ text.map Block.label) : Standing text label [] [] text where
  eq := by simp
  first _ := rfl
  fresh := hlabel

theorem write (hstanding : Standing before label lines after text) (hcode : code ≠ [])
    (hempty : "" ∉ code) :
    Standing before label (lines ++ code) after (addCode label code text) where
  eq := by
    rw [hstanding.eq, List.append_assoc, addCode_append hstanding.fresh,
      addCode_present hcode hempty hstanding.first, List.append_assoc]
  first hnil := absurd (List.append_eq_nil_iff.mp hnil).2 hcode
  fresh := hstanding.fresh

theorem behind (hstanding : Standing before label lines after text) (hlines : lines ≠ [])
    (hlater : later = text ++ more) : Standing before label lines (after ++ more) later where
  eq := by rw [hlater, hstanding.eq, List.append_assoc]
  first hnil := absurd hnil hlines
  fresh := hstanding.fresh

theorem labels (hstanding : Standing before label lines after text) (hlines : lines ≠ []) :
    text.map Block.label = before.map Block.label ++ label :: after.map Block.label := by
  rw [hstanding.eq, present_of_ne_nil hlines]
  simp

end Standing

/-! ## Writing to the text section -/

/-- The writes to the text section. -/
def textWrites (writes : List Write) : List Write :=
  writes.filter fun write => write.target = .text

theorem textWrites_append (first second : List Write) :
    textWrites (first ++ second) = textWrites first ++ textWrites second :=
  List.filter_append ..

theorem textWrites_storedWrites (node : Node) : textWrites (storedWrites node) = [] := by
  rw [textWrites, List.filter_eq_nil_iff]
  intro write hwrite
  rcases List.mem_append.mp hwrite with hmem | hmem
  · obtain ⟨line, -, rfl⟩ := List.mem_map.mp hmem
    exact nofun
  · obtain ⟨line, -, rfl⟩ := List.mem_map.mp hmem
    exact nofun

private theorem textWrites_inText (label : String) (codes : List (List String)) :
    textWrites (codes.map (inText label)) = codes.map (inText label) := by
  rw [textWrites, List.filter_eq_self]
  intro write hwrite
  obtain ⟨code, -, rfl⟩ := List.mem_map.mp hwrite
  rfl

theorem Standing.writes {before after text : List Block} {label : String} {lines : List String}
    (hstanding : Standing before label lines after text) (codes : List (List String))
    (hcodes : [] ∉ codes) (hempty : "" ∉ codes.flatten) :
    Standing before label (lines ++ codes.flatten) after
      (addAll text (textWrites (codes.map (inText label)))) := by
  rw [textWrites_inText]
  induction codes generalizing lines text with
  | nil => simpa using hstanding
  | cons code codes ih =>
      rw [List.mem_cons, not_or] at hcodes
      rw [List.flatten_cons, List.mem_append, not_or] at hempty
      have hfirst := hstanding.write (Ne.symm hcodes.1) hempty.1
      rw [List.flatten_cons, ← List.append_assoc]
      exact ih hfirst hcodes.2 hempty.2

/-- Code is written under the label in pieces. -/
theorem Standing.pieces {before after text : List Block} {label : String} {lines : List String}
    (hstanding : Standing before label lines after text) (pieces : List (List String))
    (hpieces : [] ∉ pieces) :
    Standing before label (lines ++ pieces.flatten.map instruction) after
      (addAll text
        (textWrites (pieces.map fun piece => inText label (piece.map instruction)))) := by
  have hempty : "" ∉ (pieces.map (List.map instruction)).flatten := by
    rw [← List.map_flatten]
    intro hmem
    obtain ⟨line, -, hline⟩ := List.mem_map.mp hmem
    exact instruction_ne_empty line hline
  have hwrites :=
    hstanding.writes (pieces.map (List.map instruction)) (by simpa using hpieces) hempty
  rwa [List.map_map, ← List.map_flatten] at hwrites

/-- The labels of the blocks that stand and of those that are to come are distinct. -/
def DistinctLabels (before : List Block) (label : String) (after : List Block)
    (placed : List Placed) : Prop :=
  (before.map Block.label ++ label :: after.map Block.label ++ placed.map Placed.label).Nodup

namespace DistinctLabels

variable {before after text : List Block} {label : String} {first second : List Placed}

theorem left (hdistinct : DistinctLabels before label after (first ++ second)) :
    DistinctLabels before label after first := by
  refine hdistinct.sublist ?_
  rw [List.map_append]
  exact (List.Sublist.refl _).append (List.sublist_append_left _ _)

/-- The blocks that were to come stand at the end. -/
theorem right (hdistinct : DistinctLabels before label after (first ++ second)) (names : Names) :
    DistinctLabels before label (after ++ first.flatMap (Placed.code names stream)) second := by
  refine hdistinct.sublist ?_
  rw [List.map_append, List.map_append, List.append_assoc, List.append_assoc]
  refine (List.Sublist.refl _).append ?_
  rw [List.cons_append, List.cons_append, List.append_assoc]
  exact ((List.Sublist.refl _).append
    ((map_label_code_sublist names first).append (List.Sublist.refl _))).cons_cons label

/-- The first block that is to come is opened behind all that stand. -/
theorem opened {placed : Placed}
    (hdistinct : DistinctLabels before label after (placed :: first))
    (htext : text.map Block.label = before.map Block.label ++ label :: after.map Block.label) :
    DistinctLabels text placed.label [] first := by
  rw [DistinctLabels, htext]
  simpa [DistinctLabels] using hdistinct

theorem not_mem (hdistinct : DistinctLabels before label after first) :
    label ∉ before.map Block.label := by
  rw [DistinctLabels, List.append_assoc] at hdistinct
  intro hmem
  exact (List.nodup_append.mp hdistinct).2.2 label hmem label (List.mem_cons_self ..) rfl

end DistinctLabels

/-- What a statement does to the text section: it adds its own lines under its label, and the blocks
in it at the end. -/
def StandsAfter (node : Node) : Prop :=
  ∀ (names : Names) (draws : Draws) (before after text : List Block) (label : String)
    (lines : List String), (statement names label draws node).fault = none →
    Standing before label lines after text →
    DistinctLabels before label after (blocksOf draws.stream draws.taken node) →
    Standing before label (lines ++ ownLines names draws.stream draws.taken node)
      (after ++ (blocksOf draws.stream draws.taken node).flatMap (Placed.code names draws.stream))
      (addAll text (textWrites (statement names label draws node).writes))

theorem standing_sequence_of {nodes : List Node} (hnodes : ∀ node ∈ nodes, StandsAfter node)
    {names : Names} {draws : Draws} {before after text : List Block} {label : String}
    {lines ending : List String} (hending : "" ∉ ending)
    (hok : (sequence names label ending draws nodes).fault = none)
    (hstanding : Standing before label lines after text)
    (hdistinct : DistinctLabels before label after
      (blocksOfAll draws.stream draws.taken nodes)) :
    Standing before label (lines ++ linesOf names draws.stream ending draws.taken nodes)
      (after ++
        (blocksOfAll draws.stream draws.taken nodes).flatMap (Placed.code names draws.stream))
      (addAll text (textWrites (sequence names label ending draws nodes).writes)) := by
  induction nodes generalizing draws lines after text with
  | nil => simpa [linesOf, blocksOfAll, sequence, textWrites] using hstanding
  | cons node rest ih =>
      obtain ⟨hnode, hrest, heq⟩ := sequence_cons hok
      rw [statement_draws node names label draws hnode] at hrest heq
      rw [blocksOfAll] at hdistinct
      have hfirst := hnodes node (List.mem_cons_self ..) names draws before after text label lines
        hnode hstanding hdistinct.left
      have hended : Standing before label
          (lines ++ ownLines names draws.stream draws.taken node ++ ending)
          (after ++ (blocksOf draws.stream draws.taken node).flatMap
            (Placed.code names draws.stream))
          (addAll (addAll text (textWrites (statement names label draws node).writes))
            (textWrites (ending.map fun line => inText label [line]))) := by
        have hflatten : (ending.map fun line => [line]).flatten = ending := by
          rw [← List.flatMap_def, List.flatMap_singleton']
        have hwrites := hfirst.writes (ending.map fun line => [line]) (by simp)
          (by rwa [hflatten])
        rwa [hflatten, List.map_map] at hwrites
      have hothers := ih (fun other hother => hnodes other (List.mem_cons_of_mem _ hother)) hrest
        hended (hdistinct.right names)
      rw [heq, Emission.write_writes, textWrites_append, textWrites_append, addAll_append,
        addAll_append, linesOf, blocksOfAll, List.flatMap_append]
      simpa only [List.append_assoc, Draws.skip_stream, Draws.skip_taken] using hothers

/-- A block is added behind all that stand. -/
theorem addAll_block {nodes : List Node} (hnodes : ∀ node ∈ nodes, StandsAfter node)
    {names : Names} {draws : Draws} {text : List Block} {label : String}
    (hok : (sequence names label [returnLine] draws nodes).fault = none)
    (hdistinct : DistinctLabels text label [] (blocksOfAll draws.stream draws.taken nodes)) :
    addAll text (textWrites (sequence names label [returnLine] draws nodes).writes) =
      text ++ (⟨label, draws.taken, nodes⟩ ::
        blocksOfAll draws.stream draws.taken nodes).flatMap (Placed.code names draws.stream) := by
  have hreturn : "" ∉ [returnLine] := fun hmem =>
    instruction_ne_empty "ret" (List.mem_singleton.mp hmem).symm
  have hstanding := standing_sequence_of hnodes hreturn hok (Standing.start hdistinct.not_mem)
    hdistinct
  rw [hstanding.eq, List.flatMap_cons, List.append_assoc]
  rfl

/-- **What a statement does to the text section.** -/
theorem standing_statement (node : Node) : StandsAfter node := by
  induction node using Node.blockInduction with
  | plain node hplain =>
      intro names draws before after text label lines hok hstanding hdistinct
      obtain ⟨pieces, hpieces, hcode, heq⟩ := statement_plain hplain hok
      have hlines : ownLines names draws.stream draws.taken node =
          pieces.flatten.map instruction := by
        rw [ownLines, hcode]
        rfl
      rw [heq, Emission.write_writes, textWrites_append, textWrites_storedWrites, List.nil_append,
        blocksOf_plain hplain, List.flatMap_nil, List.append_nil, hlines]
      exact hstanding.pieces pieces hpieces
  | conditional condition thenBlock elseBlock hthen helse =>
      intro names draws before after text label lines hok hstanding hdistinct
      obtain ⟨compared, relation, thenPart, elsePart, hcompared, hrelation, rfl, hthenOk,
        rfl, helseOk, heq⟩ := statement_ifElse hok
      have hlines : ownLines names draws.stream draws.taken
          (.ifElse condition thenBlock elseBlock) =
          compared.map instruction ++
            [[jump relation ++ " " ++ thenLabelAt draws.stream draws.taken],
            [jump (opposite relation) ++ " " ++ elseLabelAt draws.stream draws.taken]].flatten.map
              instruction := by
        simp only [ownLines, ownCode, conditionLines, hcompared, hrelation, bind, Except.bind]
        simp [pure, Except.pure, Except.toOption]
      rw [sequence_draws hthenOk] at helseOk heq
      rw [blocksOf_ifElse] at hdistinct ⊢
      -- The comparison opens the block of the label, if nothing else has.
      have hnonempty := compareCode_ne_nil hcompared
      have hcompare := hstanding.pieces [compared] (by simpa using hnonempty.symm)
      have hne : lines ++ [compared].flatten.map instruction ≠ [] := by simp [hnonempty]
      -- Both blocks go to the end, the second one behind the first.
      have hthenText := addAll_block hthen hthenOk (hdistinct.left.opened (hcompare.labels hne))
      have hbehindThen := hcompare.behind hne hthenText
      have helseText := addAll_block helse helseOk
        ((hdistinct.right names).opened (hbehindThen.labels hne))
      have hbehindElse := hbehindThen.behind hne helseText
      -- The jumps follow the comparison, since the label has kept its block.
      have hjumps := hbehindElse.pieces
        [[jump relation ++ " " ++ thenLabelAt draws.stream draws.taken],
          [jump (opposite relation) ++ " " ++ elseLabelAt draws.stream draws.taken]] (by simp)
      rw [← addAll_append, ← addAll_append, ← addAll_append, ← textWrites_append,
        ← textWrites_append, ← textWrites_append] at hjumps
      rw [heq, hlines, Emission.write_writes, List.flatMap_append, ← List.append_assoc lines,
        ← List.append_assoc after]
      simpa using hjumps

/-! ## Labels -/

/-- How many draws were taken before each conditional among statements in pre-order, where
`position` were taken before the first statement. -/
def conditionalsFrom (position : Nat) : List Node → List Nat
  | [] => []
  | node :: rest =>
      if node.isConditional then position :: conditionalsFrom (position + ownDraws node) rest
      else conditionalsFrom (position + ownDraws node) rest

theorem conditionalsFrom_append (position : Nat) (first second : List Node) :
    conditionalsFrom position (first ++ second) =
      conditionalsFrom position first ++ conditionalsFrom (position + drawsOf first) second := by
  induction first generalizing position with
  | nil => rfl
  | cons node rest ih =>
      rw [List.cons_append, conditionalsFrom, conditionalsFrom, ih, drawsOf, Nat.add_assoc]
      split <;> rfl

/-- The labels of the conditionals at some positions: those of the first blocks, then those of the
second ones. -/
def labelsAt (stream : Nat → Int) (positions : List Nat) : List String :=
  positions.map (thenLabelAt stream) ++ positions.map (elseLabelAt stream)

theorem count_labelsAt_append (label : String) (first second : List Nat) :
    (labelsAt stream (first ++ second)).count label =
      (labelsAt stream first).count label + (labelsAt stream second).count label := by
  simp only [labelsAt, List.map_append, List.count_append]
  omega

theorem count_blocksOfAll_of {nodes : List Node} (label : String)
    (hnodes : ∀ node ∈ nodes, ∀ position,
      ((blocksOf stream position node).map Placed.label).count label =
        (labelsAt stream (conditionalsFrom position node.walk)).count label) (position : Nat) :
    ((blocksOfAll stream position nodes).map Placed.label).count label =
      (labelsAt stream (conditionalsFrom position (Node.walkAll nodes))).count label := by
  induction nodes generalizing position with
  | nil => rfl
  | cons node rest ih =>
      rw [blocksOfAll, Node.walkAll, conditionalsFrom_append, List.map_append, List.count_append,
        count_labelsAt_append, hnodes node (List.mem_cons_self ..),
        ih fun other hother => hnodes other (List.mem_cons_of_mem _ hother)]

private theorem count_blocksOf (label : String) (node : Node) :
    ∀ position, ((blocksOf stream position node).map Placed.label).count label =
      (labelsAt stream (conditionalsFrom position node.walk)).count label := by
  induction node using Node.blockInduction with
  | plain node hplain =>
      intro position
      rw [blocksOf_plain hplain, Node.walk_of_plain hplain, conditionalsFrom, hplain]
      rfl
  | conditional condition thenBlock elseBlock hthen helse =>
      intro position
      have hthenCount := count_blocksOfAll_of label hthen (position + 10)
      have helseCount := count_blocksOfAll_of label helse
        (position + 10 + drawsOf (Node.walkAll thenBlock.inBlock))
      have hpositions : conditionalsFrom position (Node.ifElse condition thenBlock elseBlock).walk =
          [position] ++ (conditionalsFrom (position + 10) (Node.walkAll thenBlock.inBlock) ++
            conditionalsFrom (position + 10 + drawsOf (Node.walkAll thenBlock.inBlock))
              (Node.walkAll elseBlock.inBlock)) := by
        rw [Node.walk_ifElse, conditionalsFrom, ← conditionalsFrom_append]
        rfl
      have hown : (labelsAt stream [position]).count label =
          [thenLabelAt stream position].count label + [elseLabelAt stream position].count label :=
        List.count_append
      rw [blocksOf_ifElse, hpositions, count_labelsAt_append, count_labelsAt_append, ← hthenCount,
        ← helseCount, hown]
      simp only [List.map_append, List.map_cons, List.count_append, List.count_cons, List.count_nil]
      omega

/-- **Which labels blocks have**: two for each conditional in the pre-order of the statements. -/
theorem map_label_blocksOfAll_perm (position : Nat) (nodes : List Node) :
    ((blocksOfAll stream position nodes).map Placed.label).Perm
      (labelsAt stream (conditionalsFrom position (Node.walkAll nodes))) := by
  rw [List.perm_iff_count]
  intro label
  exact count_blocksOfAll_of label (fun node _ => count_blocksOf label node) position

theorem head?_thenLabelAt (stream : Nat → Int) (position : Nat) :
    (thenLabelAt stream position).toList.head? = some 'i' := by
  simp [thenLabelAt]

theorem head?_elseLabelAt (stream : Nat → Int) (position : Nat) :
    (elseLabelAt stream position).toList.head? = some 'e' := by
  simp [elseLabelAt]

theorem not_mem_labelsAt {label : String} (hthen : label.toList.head? ≠ some 'i')
    (helse : label.toList.head? ≠ some 'e') (positions : List Nat) :
    label ∉ labelsAt stream positions := by
  rw [labelsAt, List.mem_append, List.mem_map, List.mem_map]
  rintro (⟨position, -, rfl⟩ | ⟨position, -, rfl⟩)
  · exact hthen (head?_thenLabelAt stream position)
  · exact helse (head?_elseLabelAt stream position)

/-- The number of a label can be read off it. -/
theorem append_repr_inj {front : String} {first second : Nat} :
    front ++ Nat.repr first = front ++ Nat.repr second ↔ first = second := by
  constructor
  · intro heq
    have hdigits := congrArg (fun text : String => Nat.ofDigitChars 10 text.toList 0)
      ((String.append_right_inj front).mp heq)
    simpa [Nat.toList_repr, Nat.ofDigitChars_toDigits] using hdigits
  · rintro rfl
    rfl

private theorem nodup_labelsAt {positions : List Nat}
    (hthen : (positions.map fun position => labelNumber stream (position + 8)).Nodup)
    (helse : (positions.map fun position => labelNumber stream (position + 9)).Nodup) :
    (labelsAt stream positions).Nodup := by
  have hinjective : ∀ (front : String) (first second : Nat),
      first ≠ second → front ++ Nat.repr first ≠ front ++ Nat.repr second :=
    fun _ _ _ hne heq => hne (append_repr_inj.mp heq)
  refine List.nodup_append.mpr ⟨?_, ?_, ?_⟩
  · have hmap := List.Pairwise.map _ (hinjective "if_block_") hthen
    rwa [List.map_map] at hmap
  · have hmap := List.Pairwise.map _ (hinjective "else_block_") helse
    rwa [List.map_map] at hmap
  · intro label hlabel other hother heq
    obtain ⟨position, -, rfl⟩ := List.mem_map.mp hlabel
    obtain ⟨otherPosition, -, rfl⟩ := List.mem_map.mp hother
    have hheads := head?_thenLabelAt stream position
    rw [heq, head?_elseLabelAt] at hheads
    exact absurd hheads (by decide)

/-! ## The text section of a program -/

/-- The lines that every program starts with. -/
def startLines : List String :=
  ["global _start\n", "_start:\n", "\tcall main\n", "\tmov rax, 60\n", "\tmov rdi, 0\n",
    "\tsyscall\n"]

/-- The text section of a program whose labels are distinct. -/
theorem text_program {draws : Draws} {program : Program}
    (hok : (Generate.program draws program).fault = none)
    (hlabels : ((blocksOfAll draws.stream draws.taken program.statements).map Placed.label).Nodup) :
    (Sections.apply {} (Generate.program draws program).writes).text =
      ⟨noLabel, startLines⟩ ::
        (present mainLabel (linesOf program.names draws.stream [] draws.taken program.statements) ++
          (blocksOfAll draws.stream draws.taken program.statements).flatMap
            (Placed.code program.names draws.stream)) := by
  obtain ⟨hstatements, hwrites⟩ := program_of_fault hok
  have hmem : ∀ label : String, label.toList.head? ≠ some 'i' → label.toList.head? ≠ some 'e' →
      label ∉ (blocksOfAll draws.stream draws.taken program.statements).map Placed.label := by
    intro label hthen helse hlabel
    exact not_mem_labelsAt hthen helse _ ((map_label_blocksOfAll_perm _ _).mem_iff.mp hlabel)
  have hdistinct : DistinctLabels [⟨noLabel, startLines⟩] mainLabel []
      (blocksOfAll draws.stream draws.taken program.statements) := by
    have hmain := hmem mainLabel (by decide) (by decide)
    have hnone := hmem noLabel (by decide) (by decide)
    show (noLabel :: mainLabel :: _).Nodup
    rw [List.nodup_cons, List.nodup_cons, List.mem_cons, not_or]
    exact ⟨⟨by decide, hnone⟩, hmain, hlabels⟩
  have hstanding := standing_sequence_of (fun node _ => standing_statement node) List.not_mem_nil
    hstatements (Standing.start hdistinct.not_mem) hdistinct
  have htext := Sections.get_apply {} (Generate.program draws program).writes .text
  rw [hwrites] at htext ⊢
  exact htext.trans hstanding.eq

end Generate

open Generate

/-- **The layout of the text section.**  If the numbers that are drawn for the first blocks of the
conditionals are distinct, and so are those for the second blocks, then the text section has the
code that every program starts with, the code of the main routine and the code of each block, in
pre-order and without the labels that have no line.  The code of a statement is not torn apart by
the blocks in it. -/
theorem text_generateFor {draws : Draws} {program : Program}
    (hok : (Session.generateFor { draws } program).1 = none)
    (hthen : ((conditionalsFrom draws.taken (Node.walkAll program.statements)).map fun position =>
      labelNumber draws.stream (position + 8)).Nodup)
    (helse : ((conditionalsFrom draws.taken (Node.walkAll program.statements)).map fun position =>
      labelNumber draws.stream (position + 9)).Nodup) :
    (Session.generateFor { draws } program).2.sections.text =
      ⟨noLabel, startLines⟩ ::
        (present mainLabel (linesOf program.names draws.stream [] draws.taken program.statements) ++
          (blocksOfAll draws.stream draws.taken program.statements).flatMap
            (Placed.code program.names draws.stream)) :=
  text_program hok ((map_label_blocksOfAll_perm _ _).nodup_iff.mpr (nodup_labelsAt hthen helse))

/-- A conditional in a block of another, with a pointer and a system call before it. -/
def nestedProgram : Program where
  statements :=
    [.ifElse (.compare (.ofName (.text "a")) (.ofName (.text "b")) (.relation .greater))
        (.list
          [.pointer (.ofName (.text "p")) (.ofType .str)
              (.ofLiteral .string (.text "'hi'")) (.integer 2),
            .syscall (.text "60") (.list [.text "0"]) (.ofName (.text "e")),
            .ifElse
              (.compare (.ofName (.text "a")) (.ofLiteral .number (.text "7")) (.relation .equal))
              (.list []) (.list [.syscall (.text "60") (.list []) (.ofName (.text "e"))])])
        (.list [.variable (.ofName (.text "x")) (.ofLiteral .number (.integer 8)) (.ofType .int)
          .absent (.integer 9)]),
      .arithmetic .add (.ofName (.text "a")) (.ofName (.text "b"))
        (.reference .result (.ofName (.text "c")))]
  names := {}

theorem text_generateFor_nestedProgram :
    (Session.generateFor { draws := .ofList [] } nestedProgram).2.sections.text =
      [⟨"no_label", startLines⟩,
        ⟨"main", ["\tmov eax, [a]\n", "\tcmp eax, [b]\n", "\tjg if_block_1007\n",
          "\tjle else_block_1008\n", "\tmov rax, [a]\n", "\tadd rax, [b]\n", "\tmov [c], rax\n"]⟩,
        ⟨"if_block_1007", ["\tret\n", "\tmov rax, 60\n", "\tmov rdi, 0\n", "\tsyscall\n",
          "\tmov [e], rax\n", "\tret\n", "\tmov eax, 7\n", "\tcmp [a], eax\n",
          "\tje if_block_1026\n", "\tjne else_block_1027\n", "\tret\n"]⟩,
        ⟨"else_block_1027", ["\tmov rax, 60\n", "\tsyscall\n", "\tmov [e], rax\n", "\tret\n"]⟩,
        ⟨"else_block_1008", ["\tret\n"]⟩] := by
  have htext := @text_generateFor (.ofList []) nestedProgram (by decide +kernel) (by decide +kernel)
    (by decide +kernel)
  rw [htext]
  decide +kernel

end LineCompiler
