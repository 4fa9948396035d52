import LineCompiler.Proofs.Program.Effect
import LineCompiler.Proofs.Token.Gap

/-!
# Statements with other line numbers

The declarations of a program carry the numbers of their lines.  If token lines are given other
numbers, the same program is read but for these numbers, or the reading fails for the same reason;
and a line that is passed over may as well not be there (`read_of_inserted`).
-/

namespace LineCompiler

/-! ## Numbers in statements -/

namespace Node

mutual

/-- A statement in which the declarations have other line numbers. -/
def renumber (f : Atom → Atom) : Node → Node
  | .constant subject size held value line => .constant subject size held value (f line)
  | .variable subject size held value line => .variable subject size held value (f line)
  | .pointer subject held value line => .pointer subject held value (f line)
  | .ifElse condition thenBlock elseBlock =>
      .ifElse condition (thenBlock.renumberBlock f) (elseBlock.renumberBlock f)
  | node => node

/-- A block in which the declarations have other line numbers. -/
def renumberBlock (f : Atom → Atom) : Node → Node
  | .list items => .list (renumberAll f items)
  | block => block

/-- Statements in which the declarations have other line numbers. -/
def renumberAll (f : Atom → Atom) : List Node → List Node
  | [] => []
  | node :: rest => node.renumber f :: renumberAll f rest

end

theorem renumberAll_eq_map (f : Atom → Atom) (nodes : List Node) :
    renumberAll f nodes = nodes.map (renumber f) := by
  induction nodes with
  | nil => rfl
  | cons node rest ih => rw [renumberAll, ih, List.map_cons]

end Node

variable {f : Atom → Atom}

/-- An effect with other line numbers. -/
def Effect.renumber (f : Atom → Atom) : Effect Node → Effect Node
  | .statement node => .statement (node.renumber f)
  | effect => effect

/-- A conditional under construction with other line numbers. -/
def Conditional.renumber (f : Atom → Atom) (conditional : Conditional) : Conditional where
  condition := conditional.condition
  thenBlock := conditional.thenBlock.map (Node.renumber f)
  elseBlock := conditional.elseBlock.map (Node.renumber f)

private theorem Conditional.node_renumber (conditional : Conditional) :
    (conditional.renumber f).node = conditional.node.renumber f := by
  simp only [node, Node.renumber, Node.renumberBlock, Node.renumberAll_eq_map, renumber]

/-! ## Readings -/

namespace Reading

/-- A reading with other line numbers. -/
def renumber (f : Atom → Atom) (reading : Reading) : Reading :=
  { reading with
    statements := reading.statements.map (Option.map (Node.renumber f))
    current := reading.current.map (Conditional.renumber f) }

theorem settled_renumber (reading : Reading) :
    (reading.renumber f).settled = reading.settled.map (Node.renumber f) := by
  have hfilling : ((reading.current.map (Conditional.renumber f)).map
      Conditional.node).getD .absent =
      ((reading.current.map Conditional.node).getD .absent).renumber f := by
    cases reading.current with
    | none => rfl
    | some conditional => exact conditional.node_renumber
  simp only [settled, renumber, List.map_map]
  refine List.map_congr_left fun statement _ => ?_
  cases statement with
  | none => exact hfilling
  | some node => rfl

private theorem add_renumber (reading : Reading) (node : Node) :
    (reading.renumber f).add (node.renumber f) = (reading.add node).map (renumber f) := by
  obtain ⟨statements, current, inIf, inElse⟩ := reading
  cases inIf <;> cases inElse <;> cases current <;>
    simp [add, renumber, Conditional.renumber, Except.map]

/-- **What a line does to a reading does not depend on line numbers.** -/
theorem apply_renumber (reading : Reading) (effect : Effect Node) :
    (reading.renumber f).apply (effect.renumber f) = (reading.apply effect).map (renumber f) := by
  cases effect with
  | pass => rfl
  | statement node => exact reading.add_renumber node
  | conditional condition =>
      simp only [Effect.renumber, apply, openConditional, settled_renumber]
      simp [renumber, Conditional.renumber, Except.map]
  | close | closeElse | openElse =>
      obtain ⟨statements, current, inIf, inElse⟩ := reading
      cases inIf <;> cases inElse <;>
        simp [Effect.renumber, apply, closeBlock, openElse, renumber, Except.map]

end Reading

namespace Reader

open Token (valueAt)

theorem map_bind {α β γ : Type} (result : Except Fault α) (next : α → Except Fault β) (g : β → γ) :
    (result.bind next).map g = result.bind fun value => (next value).map g := by
  cases result <;> rfl

private theorem openerEffect_renumber (opener : Opener) (line : Atom) (tokens : List Token) :
    openerEffect opener (f line) tokens =
      (openerEffect opener line tokens).map (Effect.renumber f) := by
  cases opener with
  | const =>
      simp only [openerEffect, constant, bind, map_bind]
      rfl
  | var =>
      simp only [openerEffect, variableNode, bind, map_bind]
      rfl
  | ptr =>
      simp only [openerEffect, pointer, bind, map_bind]
      rfl
  | syscall =>
      simp only [openerEffect, syscall, bind, map_bind]
      rfl
  | cond =>
      simp only [openerEffect, condition, bind, map_bind]
      rfl

private theorem keywordEffect_renumber (line : Atom) (tokens : List Token) (value : Atom) :
    keywordEffect (f line) tokens value =
      (keywordEffect line tokens value).map (Effect.renumber f) := by
  unfold keywordEffect
  split
  · exact openerEffect_renumber ..
  · split
    · simp only [operation, bind, map_bind]
      rfl
    · rfl

private theorem symbolEffect_renumber (tokens : List Token) (value : Atom) :
    (symbolEffect tokens value).map (Effect.renumber f) = symbolEffect tokens value := by
  unfold symbolEffect
  cases valueAt tokens (-1) with
  | error fault => rfl
  | ok last =>
      simp only [Except.map]
      split
      · split <;> rfl
      · split <;> rfl

/-- Lines that differ in their numbers and links only have the same effect but for line numbers. -/
theorem effect_of_renumber {line other : TokenLine} (hother : other.renumber id = line.renumber f) :
    effect other = (effect line).map (Effect.renumber f) := by
  obtain ⟨source, tokens⟩ := line
  obtain ⟨otherSource, otherTokens⟩ := other
  obtain ⟨hsource, rfl⟩ := TokenLine.mk.inj hother
  have hnumber : otherSource.number = f source.number := (SourceLine.mk.inj hsource).1
  unfold effect
  rw [hnumber]
  split
  · rfl
  · rw [map_bind]
    refine congrArg _ (funext fun entry => ?_)
    obtain ⟨kind, value⟩ := entry
    cases kind with
    | symbol => exact (symbolEffect_renumber ..).symm
    | keyword => exact keywordEffect_renumber ..
    | _ => rfl

private theorem readLine_of_renumber {line other : TokenLine}
    (hother : other.renumber id = line.renumber f) (reading : Reading) :
    readLine (reading.renumber f) other = (readLine reading line).map (Reading.renumber f) := by
  rw [readLine_eq, readLine_eq, effect_of_renumber hother]
  cases effect line with
  | error fault => rfl
  | ok found => exact reading.apply_renumber found

private theorem foldlM_readLine_of_renumber {lines others : List TokenLine}
    (hothers : others.map (TokenLine.renumber id) = lines.map (TokenLine.renumber f))
    (reading : Reading) :
    others.foldlM readLine (reading.renumber f) =
      (lines.foldlM readLine reading).map (Reading.renumber f) := by
  induction lines generalizing others reading with
  | nil =>
      rw [List.map_eq_nil_iff.mp hothers]
      rfl
  | cons line rest ih =>
      obtain ⟨other, otherRest, rfl, hother, hrest⟩ := List.map_eq_cons_iff.mp hothers
      rw [List.foldlM_cons, List.foldlM_cons, readLine_of_renumber hother]
      cases readLine reading line with
      | error fault => rfl
      | ok after => exact ih hrest after

/-! ## Lines that are passed over -/

theorem readLine_of_passedOver {line : TokenLine} (hline : PassedOver line.tokens)
    (reading : Reading) : readLine reading line = .ok reading := by
  obtain ⟨source, tokens⟩ := line
  cases tokens with
  | nil => rfl
  | cons token rest =>
      obtain ⟨kind, value, rfl, hsymbol, hkeyword⟩ := hline token rfl
      cases kind with
      | symbol => exact absurd rfl hsymbol
      | keyword => exact absurd rfl hkeyword
      | _ => rfl

private theorem foldlM_readLine_eraseIdx {lines : List TokenLine} {index : Nat}
    (hpassed : ∀ line, lines[index]? = some line → PassedOver line.tokens) (reading : Reading) :
    (lines.eraseIdx index).foldlM readLine reading = lines.foldlM readLine reading := by
  induction lines generalizing index reading with
  | nil => rfl
  | cons line rest ih =>
      cases index with
      | zero =>
          rw [List.foldlM_cons, readLine_of_passedOver (hpassed line rfl)]
          rfl
      | succ index =>
          rw [List.eraseIdx_cons_succ, List.foldlM_cons, List.foldlM_cons]
          exact congrArg _ (funext fun after => ih hpassed after)

/-- **What is read of a source with a gap put in.** -/
theorem read_of_inserted {before after : Lexed} {index : Nat}
    (hinserted : before.Inserted f index after) :
    read after.lines = (read before.lines).map (List.map (Node.renumber f)) := by
  have hread : (after.lines.eraseIdx index).foldlM readLine {} =
      (before.lines.foldlM readLine {}).map (Reading.renumber f) :=
    foldlM_readLine_of_renumber hinserted.lines {}
  rw [read, read, ← foldlM_readLine_eraseIdx hinserted.between, hread]
  cases before.lines.foldlM readLine {} with
  | error fault => rfl
  | ok reading => exact congrArg Except.ok reading.settled_renumber

end Reader

end LineCompiler
