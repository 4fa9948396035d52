import LineCompiler.Proofs.Program.Acceptance

/-!
# The form of programs

A program that is read has conditionals only outside all blocks, and the blocks of a conditional
hold statements without blocks (`Formed`).  What holds of the statements and the conditions of all
lines holds of those of the program (`formed_of_read`).
-/

namespace LineCompiler

/-- A statement of a program: one without blocks, a conditional, or none. -/
inductive Node.Formed (plain condition : Node → Prop) : Node → Prop
  | plain {node : Node} (hnode : plain node) : Formed plain condition node
  | conditional {test : Node} {thenBlock elseBlock : List Node} (htest : condition test)
      (hthen : ∀ node ∈ thenBlock, plain node) (helse : ∀ node ∈ elseBlock, plain node) :
      Formed plain condition (.ifElse test (.list thenBlock) (.list elseBlock))
  | absent : Formed plain condition .absent

variable {plain condition : Node → Prop}

/-! ## Readings -/

/-- A conditional under construction of the given form. -/
structure Conditional.Formed (plain condition : Node → Prop) (conditional : Conditional) :
    Prop where
  test : condition conditional.condition
  thenBlock : ∀ node ∈ conditional.thenBlock, plain node
  elseBlock : ∀ node ∈ conditional.elseBlock, plain node

/-- A reading whose statements have the given form. -/
structure Reading.Formed (plain condition : Node → Prop) (reading : Reading) : Prop where
  statements : ∀ node, some node ∈ reading.statements → node.Formed plain condition
  current : ∀ conditional, reading.current = some conditional →
    conditional.Formed plain condition

namespace Reading

variable {reading reading' : Reading}

theorem Formed.settled (hreading : reading.Formed plain condition) :
    ∀ node ∈ reading.settled, node.Formed plain condition := by
  intro node hnode
  obtain ⟨statement, hstatement, rfl⟩ := List.mem_map.mp hnode
  cases statement with
  | some node => exact hreading.statements node hstatement
  | none =>
      cases hcurrent : reading.current with
      | none => exact .absent
      | some conditional =>
          have hformed := hreading.current conditional hcurrent
          exact .conditional hformed.test hformed.thenBlock hformed.elseBlock

theorem Formed.add {node : Node} (hreading : reading.Formed plain condition) (hnode : plain node)
    (hadd : reading.add node = .ok reading') : reading'.Formed plain condition := by
  obtain ⟨statements, current, inIf, inElse⟩ := reading
  have happend : ∀ nodes : List Node, (∀ other ∈ nodes, plain other) →
      ∀ other ∈ nodes ++ [node], plain other := by
    intro nodes hnodes other hother
    rcases List.mem_append.mp hother with hmem | hmem
    · exact hnodes other hmem
    · rwa [List.mem_singleton.mp hmem]
  cases inIf with
  | true =>
      cases current with
      | none => exact nomatch hadd
      | some conditional =>
          -- Inside a block the node goes to the conditional under construction.
          have hformed := hreading.current conditional rfl
          cases hadd
          refine ⟨hreading.statements, ?_⟩
          rintro _ ⟨⟩
          exact ⟨hformed.test, happend _ hformed.thenBlock, hformed.elseBlock⟩
  | false =>
      cases inElse with
      | true =>
          cases current with
          | none => exact nomatch hadd
          | some conditional =>
              have hformed := hreading.current conditional rfl
              cases hadd
              refine ⟨hreading.statements, ?_⟩
              rintro _ ⟨⟩
              exact ⟨hformed.test, hformed.thenBlock, happend _ hformed.elseBlock⟩
      | false =>
          cases hadd
          refine ⟨fun other hother => ?_, hreading.current⟩
          rcases List.mem_append.mp hother with hmem | hmem
          · exact hreading.statements other hmem
          · cases List.mem_singleton.mp hmem
            exact .plain hnode

theorem Formed.closeBlock (hreading : reading.Formed plain condition) :
    reading.closeBlock.Formed plain condition := by
  obtain ⟨statements, current, inIf, inElse⟩ := reading
  refine ⟨fun node hnode => hreading.statements node ?_, fun conditional hconditional =>
    hreading.current conditional ?_⟩
  · cases inIf <;> cases inElse <;> simpa [Reading.closeBlock] using hnode
  · cases inIf <;> cases inElse <;> exact hconditional

theorem Formed.openConditional {test : Node} (hreading : reading.Formed plain condition)
    (htest : condition test) : (reading.openConditional test).Formed plain condition := by
  refine ⟨fun node hnode => ?_, ?_⟩
  · obtain ⟨other, hother, heq⟩ := List.mem_map.mp hnode
    cases heq
    exact hreading.settled node hother
  · rintro _ ⟨⟩
    exact ⟨htest, by simp, by simp⟩

theorem Formed.apply {effect : Effect Node} (hreading : reading.Formed plain condition)
    (hstatement : ∀ node, effect = .statement node → plain node)
    (hcondition : ∀ test, effect = .conditional test → condition test)
    (happly : reading.apply effect = .ok reading') : reading'.Formed plain condition := by
  cases effect with
  | statement node => exact hreading.add (hstatement node rfl) happly
  | pass =>
      cases happly
      exact hreading
  | conditional test =>
      cases happly
      exact hreading.openConditional (hcondition test rfl)
  | close =>
      cases happly
      exact hreading.closeBlock
  | closeElse =>
      cases happly
      exact ⟨hreading.closeBlock.statements, hreading.closeBlock.current⟩
  | openElse =>
      cases happly
      exact ⟨hreading.statements, hreading.current⟩

end Reading

/-- **The form of a program that is read.** -/
theorem Reader.formed_of_read {lines : List TokenLine} {statements : List Node}
    (hstatement : ∀ line ∈ lines, ∀ node, Reader.effect line = .ok (.statement node) → plain node)
    (hcondition : ∀ line ∈ lines, ∀ test, Reader.effect line = .ok (.conditional test) →
      condition test)
    (hread : Reader.read lines = .ok statements) :
    ∀ node ∈ statements, node.Formed plain condition := by
  obtain ⟨reading, hreading, rfl⟩ := exists_of_map_eq_ok hread
  have hempty : Reading.Formed plain condition {} := by
    refine ⟨fun node hnode => ?_, fun conditional hnone => nomatch hnone⟩
    exact absurd hnode List.not_mem_nil
  refine (foldlM_readLine_induction hreading hempty ?_).settled
  intro line hline effect before after heffect happly hbefore
  apply hbefore.apply _ _ happly
  · rintro node rfl
    exact hstatement line hline node heffect
  · rintro test rfl
    exact hcondition line hline test heffect

/-- A program that is read has single statements, also in the blocks of its conditionals. -/
theorem Reader.formed_single_of_read {lines : List TokenLine} {statements : List Node}
    (hread : Reader.read lines = .ok statements) :
    ∀ node ∈ statements,
      node.Formed (fun node => node.IsSingle ∧ node.sort ≠ Opener.cond.sort) fun _ => True :=
  formed_of_read
    (fun _ _ _ heffect => ⟨isSingle_of_effect heffect, sort_of_effect heffect⟩)
    (fun _ _ _ _ => trivial) hread

/-! ## Conditionals in pre-order -/

namespace Node

theorem mem_preorderAll {node : Node} {nodes : List Node} :
    node ∈ preorderAll nodes ↔ ∃ statement ∈ nodes, node ∈ statement.preorder := by
  induction nodes with
  | nil => simp [preorderAll]
  | cons first rest ih => simp [preorderAll, ih]

/-- The conditionals of a program are those that appear in pre-order. -/
theorem head_mem_preorderAll_iff {test : Node} {nodes : List Node}
    (hplain : ∀ node, plain node → node.IsSingle ∧ node.sort ≠ Opener.cond.sort)
    (hformed : ∀ node ∈ nodes, node.Formed plain condition) :
    head test ∈ preorderAll nodes ↔
      ∃ thenBlock elseBlock, .ifElse test thenBlock elseBlock ∈ nodes := by
  have hnot : ∀ node, plain node → head test ∉ node.preorder := by
    intro node hnode hmem
    obtain ⟨hsingle, hsort⟩ := hplain node hnode
    rw [hsingle, List.mem_singleton] at hmem
    exact hsort (by rw [← hmem]; rfl)
  rw [mem_preorderAll]
  constructor
  · rintro ⟨statement, hmem, hhead⟩
    cases hformed statement hmem with
    | plain hnode => exact absurd hhead (hnot statement hnode)
    | absent => simp [absent, preorder, head] at hhead
    | @conditional other thenBlock elseBlock htest hthen helse =>
        simp only [preorder, List.mem_cons, List.mem_append, mem_preorderAll] at hhead
        rcases hhead with heq | ⟨node, hnode, hmem⟩ | ⟨node, hnode, hmem⟩
        · cases heq
          exact ⟨_, _, hmem⟩
        · exact absurd hmem (hnot node (hthen node hnode))
        · exact absurd hmem (hnot node (helse node hnode))
  · rintro ⟨thenBlock, elseBlock, hmem⟩
    exact ⟨_, hmem, by simp [preorder]⟩

end Node

end LineCompiler
