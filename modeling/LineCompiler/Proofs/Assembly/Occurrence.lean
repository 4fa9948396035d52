import LineCompiler.Proofs.Assembly.Lines

/-!
# Where the code of a statement stands

What the blocks of a conditional emit stands among what the conditional emits.  So however deep a
statement is nested, what it emits stands there in one piece (`emitsInside_statement`).  If it has
no blocks, its lines stand one behind the other under a label of the text section
(`ownLines_infix_linesUnder`).
-/

namespace LineCompiler

namespace Generate

variable {names : Names} {label : String} {ending : List String} {draws : Draws} {inner : Node}

/-- What a statement emits under some label and with some draws stands in one piece among the
writes. -/
def Occurs (names : Names) (inner : Node) (writes : List Write) : Prop :=
  ∃ label draws, (statement names label draws inner).fault = none ∧
    (statement names label draws inner).writes <:+: writes

theorem Occurs.mono {first second : List Write} (hoccurs : Occurs names inner first)
    (hwithin : first <:+: second) :
    Occurs names inner second := by
  obtain ⟨label, draws, hok, hfirst⟩ := hoccurs
  exact ⟨label, draws, hok, hfirst.trans hwithin⟩

/-- All statements in a statement occur among what it emits. -/
def EmitsInside (node : Node) : Prop :=
  ∀ (names : Names) (label : String) (draws : Draws),
    (statement names label draws node).fault = none →
    ∀ inner ∈ node.walk, Occurs names inner (statement names label draws node).writes

theorem occurs_sequence_of {nodes : List Node} (hnodes : ∀ node ∈ nodes, EmitsInside node)
    (hok : (sequence names label ending draws nodes).fault = none)
    (hinner : inner ∈ Node.walkAll nodes) :
    Occurs names inner (sequence names label ending draws nodes).writes := by
  induction nodes generalizing draws with
  | nil => exact absurd hinner List.not_mem_nil
  | cons node rest ih =>
      obtain ⟨hnode, hrest, heq⟩ := sequence_cons hok
      rw [heq, Emission.write_writes]
      rw [Node.walkAll, List.mem_append] at hinner
      rcases hinner with hinner | hinner
      · have hfirst := hnodes node (List.mem_cons_self ..) names label draws hnode inner hinner
        rw [List.append_assoc]
        exact hfirst.mono (List.prefix_append ..).isInfix
      · have hothers :=
          ih (fun other hother => hnodes other (List.mem_cons_of_mem _ hother)) hrest hinner
        exact hothers.mono (List.suffix_append ..).isInfix

/-- **The statements in a statement** occur among what it emits. -/
theorem emitsInside_statement (node : Node) : EmitsInside node := by
  induction node using Node.blockInduction with
  | plain node hplain =>
      intro names label draws hok inner hinner
      rw [Node.walk_of_plain hplain, List.mem_singleton] at hinner
      subst hinner
      exact ⟨label, draws, hok, List.infix_refl _⟩
  | conditional condition thenBlock elseBlock hthen helse =>
      intro names label draws hok inner hinner
      obtain ⟨_, _, thenPart, elsePart, -, -, rfl, hthenOk, rfl, helseOk, heq⟩ :=
        statement_ifElse hok
      rw [Node.walk_ifElse, List.mem_cons, List.mem_append] at hinner
      rcases hinner with rfl | hinner | hinner
      · exact ⟨label, draws, hok, List.infix_refl _⟩
      · rw [heq, Emission.write_writes, List.append_assoc]
        exact (occurs_sequence_of hthen hthenOk hinner).mono
          ((List.prefix_append ..).isInfix.trans (List.suffix_cons ..).isInfix)
      · rw [heq, Emission.write_writes]
        exact (occurs_sequence_of helse helseOk hinner).mono
          (((List.suffix_append ..).isInfix.trans (List.prefix_append ..).isInfix).trans
            (List.suffix_cons ..).isInfix)

private theorem written_within {first second : List Write} (hwithin : first <:+: second)
    (target : String) :
    written target first <:+: written target second := by
  obtain ⟨front, back, rfl⟩ := hwithin
  rw [written_append, written_append]
  exact List.infix_append ..

/-- **The lines of a statement without blocks** stand one behind the other under a label of the text
section. -/
theorem ownLines_infix_linesUnder {program : Program}
    (hok : (Generate.program draws program).fault = none) (hplain : inner.isConditional = false)
    (hinner : inner ∈ Node.walkAll program.statements) :
    ∃ label, ∀ stream position, ownLines program.names stream position inner <:+:
      linesUnder label (Sections.apply {} (Generate.program draws program).writes).text := by
  obtain ⟨hstatements, -⟩ := program_of_fault hok
  obtain ⟨label, before, hinnerOk, hwithin⟩ :=
    occurs_sequence_of (fun node _ => emitsInside_statement node) hstatements hinner
  obtain ⟨pieces, -, hcode, -⟩ := statement_plain hplain hinnerOk
  refine ⟨label, fun stream position => ?_⟩
  have hlines : ownLines program.names stream position inner =
      written label (statement program.names label before inner).writes := by
    rw [written_plain hplain hinnerOk, seenFrom_self, ownLines, ownLines, hcode, hcode]
  rw [hlines, linesUnder_program hok]
  exact (written_within hwithin label).trans (List.suffix_append ..).isInfix

end Generate

end LineCompiler
