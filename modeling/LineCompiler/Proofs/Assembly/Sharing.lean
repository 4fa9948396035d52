import LineCompiler.Proofs.Assembly.References

/-!
# Labels that blocks share

The label of a block is drawn, and nothing keeps two conditionals from drawing the same one: their
labels agree just in case their draws have the same remainder (`thenLabelAt_inj`).  More
conditionals than there are numbers have to share labels.  Blocks with one label share what stands
under it, so a block with statements has its own code there just in case it is the only user of its
label (`linesUnder_eq_lines_iff`).
-/

namespace LineCompiler

namespace Generate

/-! ## Which conditionals draw the same label -/

section Draw

variable {stream : Nat → Int} {first second : Nat} {positions : List Nat}

theorem labelNumber_inj :
    labelNumber stream first = labelNumber stream second ↔
      stream first % 9000 = stream second % 9000 := by
  rw [labelNumber, labelNumber]
  omega

private theorem thenLabelAt_inj :
    thenLabelAt stream first = thenLabelAt stream second ↔
      stream (first + 8) % 9000 = stream (second + 8) % 9000 := by
  rw [thenLabelAt, thenLabelAt, append_repr_inj, labelNumber_inj]

private theorem elseLabelAt_inj :
    elseLabelAt stream first = elseLabelAt stream second ↔
      stream (first + 9) % 9000 = stream (second + 9) % 9000 := by
  rw [elseLabelAt, elseLabelAt, append_repr_inj, labelNumber_inj]

theorem nodup_thenLabels :
    (positions.map (thenLabelAt stream)).Nodup ↔
      (positions.map fun position => stream (position + 8) % 9000).Nodup := by
  simp only [List.Nodup, List.pairwise_map, ne_eq, thenLabelAt_inj]

theorem nodup_elseLabels :
    (positions.map (elseLabelAt stream)).Nodup ↔
      (positions.map fun position => stream (position + 9) % 9000).Nodup := by
  simp only [List.Nodup, List.pairwise_map, ne_eq, elseLabelAt_inj]

/-- There are not more than 9000 remainders. -/
theorem length_le_of_nodup {offset : Nat}
    (hnodup : (positions.map fun position => stream (position + offset) % 9000).Nodup) :
    positions.length ≤ 9000 := by
  have hsubset : (positions.map fun position => stream (position + offset) % 9000) ⊆
      (List.range 9000).map Int.ofNat := by
    intro remainder hremainder
    obtain ⟨position, -, rfl⟩ := List.mem_map.mp hremainder
    refine List.mem_map.mpr ⟨(stream (position + offset) % 9000).toNat,
      List.mem_range.mpr (by omega), ?_⟩
    exact Int.toNat_of_nonneg (Int.emod_nonneg _ (by decide))
  have hlength := hnodup.length_le_of_subset hsubset
  rwa [List.length_map, List.length_map, List.length_range] at hlength

end Draw

/-! ## The code of blocks that share a label -/

section Users

variable {names : Names} {stream : Nat → Int} {label : String} {placed : Placed}
  {blocks : List Placed}

theorem mem_users : placed ∈ users label blocks ↔
    placed ∈ blocks ∧ placed.label = label ∧ placed.statements ≠ [] := by
  simp [users]

/-- The lines of all blocks with a label are those of its users. -/
theorem linesWith_eq_users :
    linesWith names stream label blocks =
      (users label blocks).flatMap (Placed.lines names stream) := by
  induction blocks with
  | nil => rfl
  | cons first rest ih =>
      rw [linesWith_cons, ih]
      by_cases huser : first.label = label ∧ first.statements ≠ []
      · have husers : users label (first :: rest) = first :: users label rest :=
          List.filter_cons_of_pos (by simpa using huser)
        rw [husers, List.flatMap_cons, huser.1, seenFrom_self]
      · have husers : users label (first :: rest) = users label rest :=
          List.filter_cons_of_neg (by simpa using huser)
        have hnone : seenFrom label first.label (first.lines names stream) = [] := by
          rw [seenFrom_eq_nil_iff, lines_eq_nil_iff]
          exact fun hlabel => Classical.byContradiction fun hne => huser ⟨hlabel, hne⟩
        rw [husers, hnone, List.nil_append]

theorem flatMap_lines_eq_nil_iff (hblocks : ∀ placed ∈ blocks, placed.statements ≠ []) :
    blocks.flatMap (Placed.lines names stream) = [] ↔ blocks = [] := by
  constructor
  · intro hnil
    rw [List.flatMap_eq_nil_iff] at hnil
    refine List.eq_nil_iff_forall_not_mem.mpr fun placed hplaced => hblocks placed hplaced ?_
    exact (lines_eq_nil_iff names stream placed).mp (hnil placed hplaced)
  · rintro rfl
    rfl

/-- The users of a label have more lines than one of them, unless there is no other. -/
theorem length_users_eq_one_iff (hplaced : placed ∈ users label blocks) :
    (users label blocks).length = 1 ↔
      ((users label blocks).flatMap (Placed.lines names stream)).length =
        (placed.lines names stream).length := by
  have hstatements : ∀ other ∈ users label blocks, other.statements ≠ [] := fun other hother =>
    (mem_users.mp hother).2.2
  -- The other users stand in front of the block and behind it, and each of them has a line.
  obtain ⟨front, back, hsplit⟩ := List.append_of_mem hplaced
  rw [hsplit] at hstatements ⊢
  have hfront := @flatMap_lines_eq_nil_iff names stream front fun other hother =>
    hstatements other (List.mem_append_left _ hother)
  have hback := @flatMap_lines_eq_nil_iff names stream back fun other hother =>
    hstatements other (List.mem_append_right _ (List.mem_cons_of_mem _ hother))
  rw [← List.length_eq_zero_iff, ← @List.length_eq_zero_iff _ front] at hfront
  rw [← List.length_eq_zero_iff, ← @List.length_eq_zero_iff _ back] at hback
  rw [List.flatMap_append, List.flatMap_cons, List.length_append, List.length_append,
    List.length_append, List.length_cons]
  omega

end Users

/-- **When a block has its own code under its label**: when no other block with a statement has
drawn the label. -/
theorem linesUnder_eq_lines_iff {draws : Draws} {program : Program} {placed : Placed}
    (hok : (Generate.program draws program).fault = none)
    (hplaced : placed ∈ blocksOfAll draws.stream draws.taken program.statements)
    (hstatements : placed.statements ≠ []) :
    linesUnder placed.label (Sections.apply {} (Generate.program draws program).writes).text =
        placed.lines program.names draws.stream ↔
      (users placed.label (blocksOfAll draws.stream draws.taken program.statements)).length =
        1 := by
  obtain ⟨hnone, hmain, -⟩ := colon_not_mem_blockLabels (List.mem_map_of_mem hplaced)
  have huser : placed ∈
      users placed.label (blocksOfAll draws.stream draws.taken program.statements) :=
    mem_users.mpr ⟨hplaced, rfl, hstatements⟩
  constructor
  · intro hlines
    have hlength := (linesUnder_perm hok placed.label).length_eq
    rw [hlines, seenFrom_of_ne (Ne.symm hnone), seenFrom_of_ne (Ne.symm hmain), List.nil_append,
      List.nil_append, linesWith_eq_users] at hlength
    exact (length_users_eq_one_iff huser).mpr hlength.symm
  · intro hone
    obtain ⟨only, honly⟩ := List.length_eq_one_iff.mp hone
    have heq : placed = only := List.mem_singleton.mp (honly ▸ huser)
    rw [linesUnder_single hok (Ne.symm hnone) (Ne.symm hmain) (Nat.le_of_eq hone),
      linesWith_eq_users, honly, heq, List.flatMap_singleton]

end Generate

open Generate

/-- **When blocks share labels.**  For every program and all draws, the blocks have two labels for
each conditional at any depth.  Those of the first blocks are distinct just in case the draws for
them have distinct remainders, and so are those of the second blocks; with more than 9000
conditionals neither is possible.  A block with a statement has its own code under its label just in
case no other such block has drawn the label. -/
theorem sharing_generateFor {draws : Draws} {program : Program}
    (hok : (Session.generateFor { draws } program).1 = none) :
    let positions := conditionalsFrom draws.taken (Node.walkAll program.statements)
    let blocks := blocksOfAll draws.stream draws.taken program.statements
    (blocks.map Placed.label).Perm
        (positions.map (thenLabelAt draws.stream) ++ positions.map (elseLabelAt draws.stream)) ∧
      ((positions.map (thenLabelAt draws.stream)).Nodup ↔
        (positions.map fun position => draws.stream (position + 8) % 9000).Nodup) ∧
      ((positions.map (elseLabelAt draws.stream)).Nodup ↔
        (positions.map fun position => draws.stream (position + 9) % 9000).Nodup) ∧
      (9000 < positions.length →
        ¬ (positions.map (thenLabelAt draws.stream)).Nodup ∧
          ¬ (positions.map (elseLabelAt draws.stream)).Nodup) ∧
      ∀ placed ∈ blocks, placed.statements ≠ [] →
        (linesUnder placed.label (Session.generateFor { draws } program).2.sections.text =
            placed.lines program.names draws.stream ↔
          (users placed.label blocks).length = 1) := by
  refine ⟨map_label_blocksOfAll_perm _ _, nodup_thenLabels, nodup_elseLabels, fun hmany => ⟨?_, ?_⟩,
    fun placed hplaced hstatements => linesUnder_eq_lines_iff hok hplaced hstatements⟩
  · intro hnodup
    exact absurd (length_le_of_nodup (nodup_thenLabels.mp hnodup)) (Nat.not_le.mpr hmany)
  · intro hnodup
    exact absurd (length_le_of_nodup (nodup_elseLabels.mp hnodup)) (Nat.not_le.mpr hmany)

/-- Two conditionals, one after the other. -/
def twoConditionals : Program where
  statements :=
    [.ifElse (.compare (.ofName (.text "a")) (.ofName (.text "b")) (.relation .equal))
        (.list [.syscall (.text "60") (.list [.text "0"]) (.ofName (.text "e"))]) (.list []),
      .ifElse (.compare (.ofName (.text "a")) (.ofName (.text "b")) (.relation .greater))
        (.list [.syscall (.text "39") (.list []) (.ofName (.text "e"))]) (.list [])]

theorem sharing_generateFor_twoConditionals :
    linesUnder "if_block_1007"
      (Session.generateFor { draws := .ofList [] } twoConditionals).2.sections.text =
      ["\tmov rax, 60\n", "\tmov rdi, 0\n", "\tsyscall\n", "\tmov [e], rax\n", "\tret\n"] := by
  obtain ⟨-, -, -, -, hlines⟩ :=
    @sharing_generateFor (.ofList []) twoConditionals (by decide +kernel)
  exact (hlines ⟨"if_block_1007", 10,
    [.syscall (.text "60") (.list [.text "0"]) (.ofName (.text "e"))]⟩
    (List.mem_cons_self ..) (List.cons_ne_nil _ _)).mpr (by decide +kernel)

/-- Where all draws are 0, the code of one block follows that of the other under their common
label. -/
theorem shared_twoConditionals :
    (Session.generateFor { draws := .ofList (List.replicate 22 0) } twoConditionals).1 = none ∧
      ¬ ((conditionalsFrom 0 (Node.walkAll twoConditionals.statements)).map
        (thenLabelAt (Draws.ofList (List.replicate 22 0)).stream)).Nodup ∧
      linesUnder "if_block_999"
          (Session.generateFor { draws := .ofList (List.replicate 22 0) }
            twoConditionals).2.sections.text =
        ["\tmov rax, 60\n", "\tmov rdi, 0\n", "\tsyscall\n", "\tmov [e], rax\n", "\tret\n",
          "\tmov rax, 39\n", "\tsyscall\n", "\tmov [e], rax\n", "\tret\n"] := by
  decide +kernel

end LineCompiler
