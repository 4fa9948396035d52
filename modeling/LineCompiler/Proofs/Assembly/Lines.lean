import LineCompiler.Proofs.Assembly.Blocks

/-!
# What stands under a label

The labels of blocks are drawn, and two blocks may draw the same one.  Then the code of both goes
under it, and if one of the blocks stands in the other, its code comes between the lines of the
other.  Whatever the draws, the lines under a label are those of all blocks that have drawn it, in
some order (`linesUnder_perm`).  If only one of these blocks has a statement, they are the lines of
that block as they stand (`linesUnder_single`).
-/

namespace LineCompiler

/-! ## Lines under a label of a section -/

/-- The lines that stand under a label. -/
def linesUnder (label : String) (blocks : List Block) : List String :=
  (blocks.filter fun block => block.label = label).flatMap Block.lines

section Blocks

variable {label target : String} {blocks : List Block}

theorem mem_linesUnder {line : String} :
    line ∈ linesUnder label blocks ↔
      ∃ block ∈ blocks, block.label = label ∧ line ∈ block.lines := by
  simp [linesUnder, List.mem_flatMap, and_assoc]

private theorem exists_mem_linesUnder {line : String} :
    (∃ label, line ∈ linesUnder label blocks) ↔ ∃ block ∈ blocks, line ∈ block.lines := by
  simp only [mem_linesUnder]
  constructor
  · rintro ⟨_, block, hblock, -, hline⟩
    exact ⟨block, hblock, hline⟩
  · rintro ⟨block, hblock, hline⟩
    exact ⟨_, block, hblock, rfl, hline⟩

theorem linesUnder_cons (block : Block) :
    linesUnder label (block :: blocks) =
      (if block.label = label then block.lines else []) ++ linesUnder label blocks := by
  by_cases hlabel : block.label = label
  · simp [linesUnder, hlabel]
  · simp [linesUnder, hlabel]

theorem linesUnder_of_not_mem (hlabel : label ∉ blocks.map Block.label) :
    linesUnder label blocks = [] := by
  rw [List.eq_nil_iff_forall_not_mem]
  intro line hline
  obtain ⟨block, hblock, rfl, -⟩ := mem_linesUnder.mp hline
  exact hlabel (List.mem_map_of_mem hblock)

private theorem mem_map_label_addCode {code : List String} :
    target ∈ (addCode label code blocks).map Block.label ↔
      target = label ∨ target ∈ blocks.map Block.label := by
  induction blocks with
  | nil => simp [addCode]
  | cons block rest ih =>
      rw [addCode]
      split
      · next heq => simp [heq]
      · rw [List.map_cons, List.mem_cons, ih, List.map_cons, List.mem_cons, or_left_comm]

theorem nodup_addCode (hnodup : (blocks.map Block.label).Nodup) (label : String)
    (code : List String) :
    ((addCode label code blocks).map Block.label).Nodup := by
  induction blocks with
  | nil => simp [addCode]
  | cons block rest ih =>
      rw [addCode]
      split
      · exact hnodup
      · next hne =>
          rw [List.map_cons, List.nodup_cons] at hnodup ⊢
          refine ⟨?_, ih hnodup.2⟩
          rw [mem_map_label_addCode, not_or]
          exact ⟨hne, hnodup.1⟩

private theorem linesUnder_addCode (hnodup : (blocks.map Block.label).Nodup) (code : List String) :
    linesUnder target (addCode label code blocks) =
      linesUnder target blocks ++ if label = target then code.filter (· ≠ "") else [] := by
  induction blocks with
  | nil =>
      rw [addCode, linesUnder_cons]
      exact List.append_nil _
  | cons block rest ih =>
      rw [List.map_cons, List.nodup_cons] at hnodup
      rw [addCode]
      split
      · next heq =>
          rw [linesUnder_cons, linesUnder_cons, heq]
          by_cases htarget : label = target
          · have hrest : linesUnder target rest = [] :=
              linesUnder_of_not_mem (htarget ▸ heq ▸ hnodup.1)
            simp [htarget, hrest]
          · simp [htarget]
      · rw [linesUnder_cons, linesUnder_cons, ih hnodup.2, List.append_assoc]

theorem nodup_addAll (hnodup : (blocks.map Block.label).Nodup) (writes : List Write) :
    ((addAll blocks writes).map Block.label).Nodup := by
  induction writes generalizing blocks with
  | nil => exact hnodup
  | cons write writes ih => exact ih (nodup_addCode hnodup _ _)

theorem linesUnder_addAll (hnodup : (blocks.map Block.label).Nodup) (writes : List Write) :
    linesUnder target (addAll blocks writes) =
      linesUnder target blocks ++
        ((writes.filter fun write => write.label = target).flatMap Write.code).filter (· ≠ "") := by
  induction writes generalizing blocks with
  | nil => simp
  | cons write writes ih =>
      rw [addAll_cons, ih (nodup_addCode hnodup _ _), linesUnder_addCode hnodup, List.append_assoc]
      by_cases hwrite : write.label = target
      · simp [hwrite]
      · simp [hwrite]

end Blocks

namespace Generate

/-! ## Lines that are written under a label -/

/-- The lines that writes put under a label of the text section. -/
def written (label : String) (writes : List Write) : List String :=
  ((textWrites writes).filter fun write => write.label = label).flatMap Write.code

/-- Lines that stand under a label, as seen from a label: all of them or none. -/
def seenFrom (target label : String) (lines : List String) : List String :=
  if label = target then lines else []

section Written

variable {target label : String}

@[simp] theorem written_nil (label : String) : written label [] = [] := rfl

@[simp] theorem written_append (label : String) (first second : List Write) :
    written label (first ++ second) = written label first ++ written label second := by
  rw [written, textWrites_append, List.filter_append, List.flatMap_append]
  rfl

theorem written_cons (label : String) (write : Write) (writes : List Write) :
    written label (write :: writes) = written label [write] ++ written label writes :=
  written_append label [write] writes

@[simp] theorem written_storedWrites (label : String) (node : Node) :
    written label (storedWrites node) = [] := by
  rw [written, textWrites_storedWrites]
  rfl

@[simp] theorem written_inText (target label : String) (code : List String) :
    written target [inText label code] = seenFrom target label code := by
  by_cases hlabel : label = target
  · simp [written, textWrites, inText, seenFrom, hlabel]
  · simp [written, textWrites, inText, seenFrom, hlabel]

theorem written_map_inText {α : Type} (target label : String) (code : α → List String)
    (items : List α) :
    written target (items.map fun item => inText label (code item)) =
      seenFrom target label (items.flatMap code) := by
  induction items with
  | nil =>
      rw [seenFrom]
      exact (ite_self _).symm
  | cons item items ih =>
      rw [List.map_cons, written_cons, written_inText, ih, List.flatMap_cons]
      by_cases hlabel : label = target
      · simp [seenFrom, hlabel]
      · simp [seenFrom, hlabel]

@[simp] theorem seenFrom_self (label : String) (lines : List String) :
    seenFrom label label lines = lines :=
  if_pos rfl

theorem seenFrom_of_ne (hne : label ≠ target) (lines : List String) :
    seenFrom target label lines = [] :=
  if_neg hne

theorem seenFrom_eq_nil_iff {lines : List String} :
    seenFrom target label lines = [] ↔ (label = target → lines = []) := by
  by_cases hlabel : label = target
  · simp [seenFrom, hlabel]
  · simp [seenFrom, hlabel]

theorem seenFrom_append (target label : String) (first second : List String) :
    seenFrom target label (first ++ second) =
      seenFrom target label first ++ seenFrom target label second := by
  by_cases hlabel : label = target
  · simp [seenFrom, hlabel]
  · simp [seenFrom, hlabel]

private theorem exists_mem_seenFrom {line : String} {lines : List String} :
    (∃ target, line ∈ seenFrom target label lines) ↔ line ∈ lines := by
  constructor
  · rintro ⟨target, hline⟩
    by_cases hlabel : label = target
    · simpa [seenFrom, hlabel] using hline
    · simp [seenFrom, hlabel] at hline
  · intro hline
    exact ⟨label, by rwa [seenFrom_self]⟩

end Written

/-! ## The lines of blocks -/

section Placed

variable (names : Names) (stream : Nat → Int)

/-- The lines of a block, in which a return follows every statement. -/
def Placed.lines (placed : Placed) : List String :=
  linesOf names stream [returnLine] placed.position placed.statements

/-- The lines of all blocks with a label. -/
def linesWith (label : String) (placed : List Placed) : List String :=
  (placed.filter fun placed => placed.label = label).flatMap (Placed.lines names stream)

@[simp] theorem linesWith_nil (label : String) : linesWith names stream label [] = [] := rfl

theorem linesWith_append (label : String) (first second : List Placed) :
    linesWith names stream label (first ++ second) =
      linesWith names stream label first ++ linesWith names stream label second := by
  rw [linesWith, List.filter_append, List.flatMap_append]
  rfl

theorem linesWith_cons (label : String) (first : Placed) (rest : List Placed) :
    linesWith names stream label (first :: rest) =
      seenFrom label first.label (first.lines names stream) ++
        linesWith names stream label rest := by
  by_cases hlabel : first.label = label
  · simp [linesWith, seenFrom, hlabel]
  · simp [linesWith, seenFrom, hlabel]

theorem lines_eq_nil_iff (placed : Placed) :
    placed.lines names stream = [] ↔ placed.statements = [] := by
  obtain ⟨label, position, statements⟩ := placed
  cases statements with
  | nil => exact ⟨fun _ => rfl, fun _ => rfl⟩
  | cons node rest => simp [Placed.lines, linesOf]

theorem linesWith_eq_nil_iff {label : String} {placed : List Placed} :
    linesWith names stream label placed = [] ↔
      ∀ block ∈ placed, block.label = label → block.statements = [] := by
  simp [linesWith, List.flatMap_eq_nil_iff, lines_eq_nil_iff]

private theorem exists_mem_linesWith {line : String} {placed : List Placed} :
    (∃ label, line ∈ linesWith names stream label placed) ↔
      ∃ block ∈ placed, line ∈ block.lines names stream := by
  simp only [linesWith, List.mem_flatMap, List.mem_filter, decide_eq_true_eq]
  constructor
  · rintro ⟨_, block, ⟨hblock, -⟩, hline⟩
    exact ⟨block, hblock, hline⟩
  · rintro ⟨block, hblock, hline⟩
    exact ⟨_, block, ⟨hblock, rfl⟩, hline⟩

end Placed

/-! ## Whatever the draws -/

variable {names : Names} {label : String} {ending : List String} {draws : Draws}

theorem written_plain {node : Node} (hplain : node.isConditional = false)
    (hok : (statement names label draws node).fault = none) (target : String) :
    written target (statement names label draws node).writes =
      seenFrom target label (ownLines names draws.stream draws.taken node) := by
  obtain ⟨pieces, -, hcode, heq⟩ := statement_plain hplain hok
  have hlines : ownLines names draws.stream draws.taken node =
      pieces.flatMap (List.map instruction) := by
    rw [ownLines, hcode, List.flatMap_def, ← List.map_flatten]
    rfl
  rw [heq, Emission.write_writes, written_append, written_storedWrites, written_map_inText,
    List.nil_append, hlines]

/-- A conditional writes its comparison, what its two blocks write, and its jumps. -/
theorem written_ifElse {condition thenBlock elseBlock : Node}
    (hok : (statement names label draws (.ifElse condition thenBlock elseBlock)).fault = none) :
    ∃ front back thenPart elsePart,
      ownLines names draws.stream draws.taken (.ifElse condition thenBlock elseBlock) =
        front ++ back ∧
      thenPart = sequence names (thenLabelAt draws.stream draws.taken) [returnLine]
        (draws.skip 10) thenBlock.inBlock ∧ thenPart.fault = none ∧
      elsePart = sequence names (elseLabelAt draws.stream draws.taken) [returnLine]
        (draws.skip (10 + drawsOf (Node.walkAll thenBlock.inBlock))) elseBlock.inBlock ∧
        elsePart.fault = none ∧
      ∀ target, written target
        (statement names label draws (.ifElse condition thenBlock elseBlock)).writes =
        seenFrom target label front ++
          (written target thenPart.writes ++ written target elsePart.writes) ++
          seenFrom target label back := by
  obtain ⟨compared, relation, thenPart, elsePart, hcompared, hrelation, rfl, hthenOk, rfl, helseOk,
    heq⟩ := statement_ifElse hok
  rw [sequence_draws hthenOk, Draws.skip_skip] at helseOk heq
  refine ⟨compared.map instruction,
    [instruction (jump relation ++ " " ++ thenLabelAt draws.stream draws.taken)] ++
      [instruction (jump (opposite relation) ++ " " ++ elseLabelAt draws.stream draws.taken)],
    _, _, ?_, rfl, hthenOk, rfl, helseOk, fun target => ?_⟩
  · simp only [ownLines, ownCode, conditionLines, hcompared, hrelation, bind, Except.bind]
    simp [pure, Except.pure, Except.toOption]
  · have hjumps : ∀ first second : String,
        written target [inText label [first], inText label [second]] =
          seenFrom target label ([first] ++ [second]) := fun first second =>
      written_map_inText target label (fun line => [line]) [first, second]
    rw [heq, Emission.write_writes, written_cons, written_append, written_append, written_inText,
      hjumps]
    simp only [List.append_assoc]

/-- What a statement writes under a label, up to order: its own lines, if the label is its own, and
the lines of the blocks in it. -/
def WritesLines (node : Node) : Prop :=
  ∀ (names : Names) (label target : String) (draws : Draws),
    (statement names label draws node).fault = none →
    (written target (statement names label draws node).writes).Perm
      (seenFrom target label (ownLines names draws.stream draws.taken node) ++
        linesWith names draws.stream target (blocksOf draws.stream draws.taken node))

theorem written_sequence_perm_of {nodes : List Node} (hnodes : ∀ node ∈ nodes, WritesLines node)
    (hok : (sequence names label ending draws nodes).fault = none) (target : String) :
    (written target (sequence names label ending draws nodes).writes).Perm
      (seenFrom target label (linesOf names draws.stream ending draws.taken nodes) ++
        linesWith names draws.stream target (blocksOfAll draws.stream draws.taken nodes)) := by
  induction nodes generalizing draws with
  | nil => simp [sequence, linesOf, blocksOfAll, seenFrom]
  | cons node rest ih =>
      obtain ⟨hnode, hrest, heq⟩ := sequence_cons hok
      have hfirst := hnodes node (List.mem_cons_self ..) names label target draws hnode
      rw [statement_draws node names label draws hnode] at hrest heq
      have hothers := ih (fun other hother => hnodes other (List.mem_cons_of_mem _ hother)) hrest
      have hending : written target (ending.map fun line => inText label [line]) =
          seenFrom target label ending := by
        rw [written_map_inText, List.flatMap_singleton']
      rw [heq, Emission.write_writes, written_append, written_append, hending, linesOf, blocksOfAll,
        seenFrom_append, seenFrom_append, linesWith_append]
      -- The lines of inner blocks come in between, so lines are counted.
      rw [List.perm_iff_count] at hfirst hothers ⊢
      intro line
      have hfirstCount := hfirst line
      have hothersCount := hothers line
      simp only [List.count_append, Draws.skip_stream, Draws.skip_taken]
        at hfirstCount hothersCount ⊢
      omega

/-- **What a statement writes under a label**, whatever the draws. -/
theorem writesLines_statement (node : Node) : WritesLines node := by
  induction node using Node.blockInduction with
  | plain node hplain =>
      intro names label target draws hok
      rw [written_plain hplain hok target, blocksOf_plain hplain, linesWith_nil, List.append_nil]
  | conditional condition thenBlock elseBlock hthen helse =>
      intro names label target draws hok
      obtain ⟨front, back, thenPart, elsePart, hlines, rfl, hthenOk, rfl, helseOk, hwritten⟩ :=
        written_ifElse hok
      have hthenLines := written_sequence_perm_of hthen hthenOk target
      have helseLines := written_sequence_perm_of helse helseOk target
      rw [hwritten, hlines, blocksOf_ifElse, linesWith_append, linesWith_cons, linesWith_cons,
        seenFrom_append]
      rw [List.perm_iff_count] at hthenLines helseLines ⊢
      intro line
      have hthenCount := hthenLines line
      have helseCount := helseLines line
      simp only [List.count_append, Placed.lines, Draws.skip_stream, Draws.skip_taken,
        ← Nat.add_assoc] at hthenCount helseCount ⊢
      omega

theorem written_sequence_perm {nodes : List Node}
    (hok : (sequence names label ending draws nodes).fault = none) (target : String) :
    (written target (sequence names label ending draws nodes).writes).Perm
      (seenFrom target label (linesOf names draws.stream ending draws.taken nodes) ++
        linesWith names draws.stream target (blocksOfAll draws.stream draws.taken nodes)) :=
  written_sequence_perm_of (fun node _ => writesLines_statement node) hok target

/-- The lines of a block with its inner blocks, seen from a label that none of them has. -/
theorem written_block_eq_nil {nodes : List Node} {target : String}
    (hok : (sequence names label [returnLine] draws nodes).fault = none)
    (hnone : linesWith names draws.stream target
      (⟨label, draws.taken, nodes⟩ :: blocksOfAll draws.stream draws.taken nodes) = []) :
    written target (sequence names label [returnLine] draws nodes).writes = [] := by
  rw [linesWith_cons] at hnone
  have hperm := written_sequence_perm hok target
  rw [show seenFrom target label (linesOf names draws.stream [returnLine] draws.taken nodes) ++ _ =
    [] from hnone] at hperm
  exact hperm.eq_nil

/-! ## A label that one block has -/

/-- A statement whose blocks have nothing under its label writes its own lines there, in their
order. -/
theorem written_own_statement {node : Node} (hok : (statement names label draws node).fault = none)
    (hothers : linesWith names draws.stream label (blocksOf draws.stream draws.taken node) = []) :
    written label (statement names label draws node).writes =
      ownLines names draws.stream draws.taken node := by
  by_cases hplain : node.isConditional = false
  · rw [written_plain hplain hok label, seenFrom_self]
  · cases node with
    | ifElse condition thenBlock elseBlock =>
        obtain ⟨front, back, thenPart, elsePart, hlines, rfl, hthenOk, rfl, helseOk, hwritten⟩ :=
          written_ifElse hok
        rw [blocksOf_ifElse, linesWith_append, List.append_eq_nil_iff, Nat.add_assoc] at hothers
        rw [hwritten, hlines, written_block_eq_nil hthenOk hothers.1,
          written_block_eq_nil helseOk hothers.2, List.append_nil, List.append_nil, seenFrom_self,
          seenFrom_self]
    | _ => exact absurd rfl hplain

private theorem written_own_sequence {nodes : List Node}
    (hok : (sequence names label ending draws nodes).fault = none)
    (hothers : linesWith names draws.stream label
      (blocksOfAll draws.stream draws.taken nodes) = []) :
    written label (sequence names label ending draws nodes).writes =
      linesOf names draws.stream ending draws.taken nodes := by
  induction nodes generalizing draws with
  | nil => rfl
  | cons node rest ih =>
      obtain ⟨hnode, hrest, heq⟩ := sequence_cons hok
      rw [statement_draws node names label draws hnode] at hrest heq
      rw [blocksOfAll, linesWith_append, List.append_eq_nil_iff] at hothers
      have hending : written label (ending.map fun line => inText label [line]) = ending := by
        rw [written_map_inText, List.flatMap_singleton', seenFrom_self]
      rw [heq, Emission.write_writes, written_append, written_append, hending,
        written_own_statement hnode hothers.1, ih hrest hothers.2, linesOf]
      rfl

/-- The blocks that have a label and a statement. -/
def users (label : String) (placed : List Placed) : List Placed :=
  placed.filter fun placed => placed.label = label && !placed.statements.isEmpty

theorem users_append (label : String) (first second : List Placed) :
    users label (first ++ second) = users label first ++ users label second :=
  List.filter_append ..

private theorem linesWith_eq_nil_of_users {placed : List Placed} {stream : Nat → Int}
    {target : String} (husers : users target placed = []) :
    linesWith names stream target placed = [] := by
  rw [linesWith_eq_nil_iff]
  intro block hblock hlabel
  have hnone := List.filter_eq_nil_iff.mp husers block hblock
  simpa [hlabel] using hnone

/-- A statement writes under another label what the only user of that label among its blocks writes
there. -/
def WritesInside (node : Node) : Prop :=
  ∀ (names : Names) (label target : String) (draws : Draws),
    (statement names label draws node).fault = none → label ≠ target →
    (users target (blocksOf draws.stream draws.taken node)).length ≤ 1 →
    written target (statement names label draws node).writes =
      linesWith names draws.stream target (blocksOf draws.stream draws.taken node)

theorem written_inside_sequence_of {nodes : List Node} {target : String}
    (hnodes : ∀ node ∈ nodes, WritesInside node)
    (hok : (sequence names label ending draws nodes).fault = none) (hlabel : label ≠ target)
    (husers : (users target (blocksOfAll draws.stream draws.taken nodes)).length ≤ 1) :
    written target (sequence names label ending draws nodes).writes =
      linesWith names draws.stream target (blocksOfAll draws.stream draws.taken nodes) := by
  induction nodes generalizing draws with
  | nil => rfl
  | cons node rest ih =>
      obtain ⟨hnode, hrest, heq⟩ := sequence_cons hok
      rw [statement_draws node names label draws hnode] at hrest heq
      rw [blocksOfAll, users_append, List.length_append] at husers
      have hfirst :=
        hnodes node (List.mem_cons_self ..) names label target draws hnode hlabel (by omega)
      have hothers := ih (fun other hother => hnodes other (List.mem_cons_of_mem _ hother)) hrest
        (by simp only [Draws.skip_stream, Draws.skip_taken]; omega)
      rw [heq, Emission.write_writes, written_append, written_append, written_map_inText,
        seenFrom_of_ne hlabel, hfirst, hothers, List.append_nil, blocksOfAll, linesWith_append]
      rfl

/-- A block and the blocks in it write under a label what the only user of it writes there. -/
theorem written_block_of {nodes : List Node} (hnodes : ∀ node ∈ nodes, WritesInside node)
    (hok : (sequence names label [returnLine] draws nodes).fault = none) (target : String)
    (husers : (users target
      (⟨label, draws.taken, nodes⟩ :: blocksOfAll draws.stream draws.taken nodes)).length ≤ 1) :
    written target (sequence names label [returnLine] draws nodes).writes =
      linesWith names draws.stream target
        (⟨label, draws.taken, nodes⟩ :: blocksOfAll draws.stream draws.taken nodes) := by
  by_cases hlabel : label = target
  · subst hlabel
    by_cases hnone : linesWith names draws.stream label
      (blocksOfAll draws.stream draws.taken nodes) = []
    · rw [written_own_sequence hok hnone, linesWith_cons, hnone, List.append_nil]
      exact (seenFrom_self _ _).symm
    · -- Another block uses the label, so this one has no statement.
      have hothers : users label (blocksOfAll draws.stream draws.taken nodes) ≠ [] := fun hnil =>
        hnone (linesWith_eq_nil_of_users hnil)
      cases nodes with
      | nil => exact absurd rfl hothers
      | cons node rest =>
          have hcount : (users label (blocksOfAll draws.stream draws.taken (node :: rest))).length +
              1 ≤ 1 := by
            rwa [users, List.filter_cons_of_pos (by simp), List.length_cons] at husers
          exact absurd (List.length_eq_zero_iff.mp (by omega)) hothers
  · rw [linesWith_cons, seenFrom_of_ne hlabel, List.nil_append]
    refine written_inside_sequence_of hnodes hok hlabel ?_
    rwa [users, List.filter_cons_of_neg (by simp [hlabel])] at husers

private theorem writesInside_statement (node : Node) : WritesInside node := by
  induction node using Node.blockInduction with
  | plain node hplain =>
      intro names label target draws hok hlabel _
      rw [written_plain hplain hok target, seenFrom_of_ne hlabel, blocksOf_plain hplain,
        linesWith_nil]
  | conditional condition thenBlock elseBlock hthen helse =>
      intro names label target draws hok hlabel husers
      obtain ⟨front, back, thenPart, elsePart, -, rfl, hthenOk, rfl, helseOk, hwritten⟩ :=
        written_ifElse hok
      rw [blocksOf_ifElse, users_append, List.length_append] at husers
      have hthenLines := written_block_of hthen hthenOk target
        (by simp only [Draws.skip_stream, Draws.skip_taken]; omega)
      have helseLines := written_block_of helse helseOk target
        (by simp only [Draws.skip_stream, Draws.skip_taken, ← Nat.add_assoc]; omega)
      rw [hwritten, hthenLines, helseLines, seenFrom_of_ne hlabel, seenFrom_of_ne hlabel,
        blocksOf_ifElse, linesWith_append, Nat.add_assoc]
      exact List.append_nil _

/-! ## The text section -/

theorem empty_not_mem_linesOf (hending : "" ∉ ending) {stream : Nat → Int} (position : Nat)
    (nodes : List Node) : "" ∉ linesOf names stream ending position nodes := by
  induction nodes generalizing position with
  | nil => exact List.not_mem_nil
  | cons node rest ih =>
      rw [linesOf, List.mem_append, List.mem_append, not_or, not_or]
      refine ⟨⟨?_, hending⟩, ih _⟩
      intro hmem
      obtain ⟨line, -, hline⟩ := List.mem_map.mp hmem
      exact instruction_ne_empty line hline

private theorem empty_not_mem_linesWith {stream : Nat → Int} (target : String)
    (placed : List Placed) :
    "" ∉ linesWith names stream target placed := by
  intro hmem
  obtain ⟨block, -, hline⟩ := List.mem_flatMap.mp hmem
  refine empty_not_mem_linesOf ?_ _ _ hline
  exact fun hreturn => instruction_ne_empty "ret" (List.mem_singleton.mp hreturn).symm

theorem not_mem_seenFrom {target line : String} {lines : List String} (hline : line ∉ lines) :
    line ∉ seenFrom target label lines := by
  by_cases hlabel : label = target
  · simpa [seenFrom, hlabel] using hline
  · simp [seenFrom, hlabel]

/-- What stands under a label of the text section is what was written there. -/
theorem linesUnder_program {program : Program} (hok : (Generate.program draws program).fault = none)
    (target : String) :
    linesUnder target (Sections.apply {} (Generate.program draws program).writes).text =
      seenFrom target noLabel startLines ++
        written target (sequence program.names mainLabel [] draws program.statements).writes := by
  obtain ⟨hstatements, hwrites⟩ := program_of_fault hok
  have htext := Sections.get_apply {} (Generate.program draws program).writes .text
  have hlines := @linesUnder_addAll target [] List.nodup_nil
    (textWrites (Generate.program draws program).writes)
  have hwritten : written target (Generate.program draws program).writes =
      seenFrom target noLabel startLines ++
        written target (sequence program.names mainLabel [] draws program.statements).writes := by
    rw [hwrites, written_cons]
    exact congrArg (· ++ _) (written_inText target noLabel startLines)
  have hempty : "" ∉ written target (Generate.program draws program).writes := by
    rw [hwritten, List.mem_append, (written_sequence_perm hstatements target).mem_iff,
      List.mem_append, not_or, not_or]
    exact ⟨not_mem_seenFrom (by decide),
      not_mem_seenFrom (empty_not_mem_linesOf List.not_mem_nil _ _), empty_not_mem_linesWith _ _⟩
  rw [show (Sections.apply {} (Generate.program draws program).writes).text =
    addAll [] (textWrites (Generate.program draws program).writes) from htext, hlines, ← hwritten]
  refine List.filter_eq_self.mpr fun line hline => ?_
  have hne : line ≠ "" := fun heq => hempty (heq ▸ hline)
  simpa using hne

/-- **The lines under a label**, up to order and whatever the draws: those that every program starts
with, those of the main routine, or those of all blocks with the label. -/
theorem linesUnder_perm {program : Program} (hok : (Generate.program draws program).fault = none)
    (target : String) :
    (linesUnder target (Sections.apply {} (Generate.program draws program).writes).text).Perm
      (seenFrom target noLabel startLines ++
        (seenFrom target mainLabel
          (linesOf program.names draws.stream [] draws.taken program.statements) ++
          linesWith program.names draws.stream target
            (blocksOfAll draws.stream draws.taken program.statements))) := by
  rw [linesUnder_program hok]
  exact (List.Perm.refl _).append (written_sequence_perm (program_of_fault hok).1 target)

/-- The lines of the text section, under whatever label. -/
theorem mem_text_iff {program : Program} (hok : (Generate.program draws program).fault = none)
    {line : String} :
    (∃ block ∈ (Sections.apply {} (Generate.program draws program).writes).text,
      line ∈ block.lines) ↔
      line ∈ startLines ∨
        line ∈ linesOf program.names draws.stream [] draws.taken program.statements ∨
        ∃ placed ∈ blocksOfAll draws.stream draws.taken program.statements,
          line ∈ placed.lines program.names draws.stream := by
  have hlabel : ∀ label,
      line ∈ linesUnder label (Sections.apply {} (Generate.program draws program).writes).text ↔
        _ :=
    fun label => (linesUnder_perm hok label).mem_iff
  rw [← exists_mem_linesUnder]
  simp only [hlabel, List.mem_append, exists_or, exists_mem_seenFrom, exists_mem_linesWith]

/-- **A label with one user** has the lines of that block under it. -/
theorem linesUnder_single {program : Program} {target : String}
    (hok : (Generate.program draws program).fault = none)
    (hnone : noLabel ≠ target) (hmain : mainLabel ≠ target)
    (husers : (users target (blocksOfAll draws.stream draws.taken program.statements)).length ≤ 1) :
    linesUnder target (Sections.apply {} (Generate.program draws program).writes).text =
      linesWith program.names draws.stream target
        (blocksOfAll draws.stream draws.taken program.statements) := by
  rw [linesUnder_program hok, seenFrom_of_ne hnone, List.nil_append]
  exact written_inside_sequence_of (fun node _ => writesInside_statement node)
    (program_of_fault hok).1 hmain husers

end Generate

end LineCompiler
