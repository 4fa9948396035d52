import LineCompiler.Proofs.Program.Formed

/-!
# Statements in the order of their code

Code is generated for a statement and then for the statements in its blocks, and a block may be any
node that has items.  `Node.walkAll` lists statements in this order, each with its blocks; what
holds of all of them is proved by `Node.blockInduction`.

Reading lists statements in pre-order too (`Node.preorderAll`), but without the blocks of
conditionals, and it goes into lists wherever they stand.  Where the blocks of all conditionals are
lists and no other statement has statements in it, the two orders are the same
(`Node.preorderAll_eq_map_walkAll`).  All programs that are read are so (`walkAll_of_read`).
-/

namespace LineCompiler

namespace Node

/-! ## Statements and their blocks -/

/-- The statements of a block: the items of its node, and none where it has no items. -/
def inBlock (block : Node) : List Node :=
  block.items.toOption.getD []

/-- Whether a node is a conditional. -/
def isConditional : Node → Bool
  | .ifElse _ _ _ => true
  | _ => false

theorem mem_inBlock {block node : Node} (hnode : node ∈ block.inBlock) :
    (∃ items, block = .list items ∧ node ∈ items) ∨ ∃ content, node = .text content := by
  cases block with
  | list items => exact Or.inl ⟨items, rfl, hnode⟩
  | table labels values =>
      obtain ⟨label, -, rfl⟩ := List.mem_map.mp (show node ∈ labels.map Node.text from hnode)
      exact Or.inr ⟨label, rfl⟩
  | bare value =>
      cases value with
      | text content =>
          obtain ⟨c, -, rfl⟩ := List.mem_map.mp
            (show node ∈ content.toList.map fun c => Node.text (String.singleton c) from hnode)
          exact Or.inr ⟨_, rfl⟩
      | _ => exact absurd hnode List.not_mem_nil
  | _ => exact absurd hnode List.not_mem_nil

/-- A block whose node is not a list has nothing but texts in it. -/
theorem text_of_mem_inBlock {block node : Node} (hother : ∀ items, block = .list items → False)
    (hnode : node ∈ block.inBlock) : ∃ content, node = .text content := by
  rcases mem_inBlock hnode with ⟨items, heq, -⟩ | htext
  · exact absurd heq (hother items)
  · exact htext

/-- What holds of the statements without blocks, and of a conditional if it holds of the statements
in its blocks, holds of all statements. -/
theorem blockInduction {motive : Node → Prop}
    (plain : ∀ node, node.isConditional = false → motive node)
    (conditional : ∀ condition thenBlock elseBlock : Node,
      (∀ node ∈ thenBlock.inBlock, motive node) → (∀ node ∈ elseBlock.inBlock, motive node) →
        motive (.ifElse condition thenBlock elseBlock))
    (node : Node) : motive node := by
  by_cases hplain : node.isConditional = false
  · exact plain node hplain
  · cases node with
    | ifElse condition thenBlock elseBlock =>
        refine conditional condition thenBlock elseBlock (fun node hnode => ?_)
          fun node hnode => ?_
        · rcases mem_inBlock hnode with ⟨items, hblock, hmem⟩ | ⟨content, rfl⟩
          · exact blockInduction plain conditional node
          · exact plain _ rfl
        · rcases mem_inBlock hnode with ⟨items, hblock, hmem⟩ | ⟨content, rfl⟩
          · exact blockInduction plain conditional node
          · exact plain _ rfl
    | _ => exact absurd rfl hplain
termination_by sizeOf node
decreasing_by
  all_goals
    have hsize := List.sizeOf_lt_of_mem hmem
    simp only [ifElse.sizeOf_spec, hblock, list.sizeOf_spec]
    omega

/-! ## Pre-order -/

mutual

/-- A statement and the statements in its blocks, in pre-order. -/
def walk : Node → List Node
  | .ifElse condition thenBlock elseBlock =>
      .ifElse condition thenBlock elseBlock :: (thenBlock.walkBlock ++ elseBlock.walkBlock)
  | node => [node]

/-- The statements in a block, in pre-order. -/
def walkBlock : Node → List Node
  | .list items => walkAll items
  | block => block.inBlock

/-- Statements and the statements in their blocks, in pre-order. -/
def walkAll : List Node → List Node
  | [] => []
  | node :: rest => node.walk ++ walkAll rest

end

theorem walk_of_plain {node : Node} (hplain : node.isConditional = false) : node.walk = [node] := by
  cases node with
  | ifElse condition thenBlock elseBlock => exact nomatch hplain
  | _ => rfl

theorem walkAll_of_texts {nodes : List Node}
    (hnodes : ∀ node ∈ nodes, ∃ content, node = .text content) :
    walkAll nodes = nodes := by
  induction nodes with
  | nil => rfl
  | cons node rest ih =>
      obtain ⟨content, rfl⟩ := hnodes node (List.mem_cons_self ..)
      rw [walkAll, ih fun other hother => hnodes other (List.mem_cons_of_mem _ hother)]
      rfl

theorem walkBlock_eq (block : Node) : block.walkBlock = walkAll block.inBlock := by
  by_cases hlist : ∃ items, block = .list items
  · obtain ⟨items, rfl⟩ := hlist
    rw [walkBlock]
    rfl
  · have hother : ∀ items, block = .list items → False := fun items heq => hlist ⟨items, heq⟩
    rw [walkBlock, walkAll_of_texts fun node => text_of_mem_inBlock hother]
    exact hother

theorem walk_ifElse (condition thenBlock elseBlock : Node) :
    (Node.ifElse condition thenBlock elseBlock).walk =
      .ifElse condition thenBlock elseBlock ::
        (walkAll thenBlock.inBlock ++ walkAll elseBlock.inBlock) := by
  rw [walk, walkBlock_eq, walkBlock_eq]

/-! ## The two pre-orders -/

/-- A conditional without its blocks, and any other statement as it is. -/
def withoutBlocks : Node → Node
  | .ifElse condition _ _ => head condition
  | node => node

theorem withoutBlocks_of_plain {node : Node} (hplain : node.isConditional = false) :
    node.withoutBlocks = node := by
  cases node with
  | ifElse condition thenBlock elseBlock => cases hplain
  | _ => rfl

/-- A statement that both pre-orders take alike: a single one, or a conditional with lists as its
blocks. -/
inductive IsLaidOut : Node → Prop
  | single {node : Node} (hplain : node.isConditional = false) (hsingle : node.IsSingle) :
      IsLaidOut node
  | conditional (condition : Node) (thenBlock elseBlock : List Node) :
      IsLaidOut (.ifElse condition (.list thenBlock) (.list elseBlock))

theorem mem_walkAll {node : Node} {nodes : List Node} :
    node ∈ walkAll nodes ↔ ∃ statement ∈ nodes, node ∈ statement.walk := by
  induction nodes with
  | nil => simp [walkAll]
  | cons first rest ih => simp [walkAll, ih]

theorem preorderAll_eq_map_of_forall {nodes : List Node}
    (hnodes : ∀ node ∈ nodes, node.preorder = node.walk.map withoutBlocks) :
    preorderAll nodes = (walkAll nodes).map withoutBlocks := by
  induction nodes with
  | nil => rfl
  | cons node rest ih =>
      rw [preorderAll, walkAll, List.map_append, hnodes node (List.mem_cons_self ..),
        ih fun other hother => hnodes other (List.mem_cons_of_mem _ hother)]

private theorem preorder_eq_map_walk (node : Node) (hlaid : ∀ inner ∈ node.walk, inner.IsLaidOut) :
    node.preorder = node.walk.map withoutBlocks := by
  induction node using blockInduction with
  | plain node hplain =>
      rw [walk_of_plain hplain] at hlaid ⊢
      cases hlaid node (List.mem_singleton_self node) with
      | single _ hsingle => rw [hsingle, List.map_singleton, withoutBlocks_of_plain hplain]
      | conditional => cases hplain
  | conditional condition thenBlock elseBlock hthen helse =>
      rw [walk_ifElse] at hlaid ⊢
      have hblocks : ∀ inner ∈ walkAll thenBlock.inBlock ++ walkAll elseBlock.inBlock,
          inner.IsLaidOut := fun inner hinner => hlaid inner (List.mem_cons_of_mem _ hinner)
      cases hlaid _ (List.mem_cons_self ..) with
      | single hplain => cases hplain
      | conditional _ thenItems elseItems =>
          -- The blocks are lists, so their statements are the items of these.
          have hfirst : preorderAll thenItems = (walkAll thenItems).map withoutBlocks :=
            preorderAll_eq_map_of_forall fun node hnode => hthen node hnode fun inner hinner =>
              hblocks inner (List.mem_append_left _ (mem_walkAll.mpr ⟨node, hnode, hinner⟩))
          have hsecond : preorderAll elseItems = (walkAll elseItems).map withoutBlocks :=
            preorderAll_eq_map_of_forall fun node hnode => helse node hnode fun inner hinner =>
              hblocks inner (List.mem_append_right _ (mem_walkAll.mpr ⟨node, hnode, hinner⟩))
          rw [preorder, preorder, preorder, hfirst, hsecond, List.map_cons, List.map_append]
          rfl

/-- **The two pre-orders agree** on statements that are laid out: they list the same statements in
the same order, `walkAll` with the blocks of the conditionals and `preorderAll` without them. -/
theorem preorderAll_eq_map_walkAll {nodes : List Node}
    (hlaid : ∀ node ∈ walkAll nodes, node.IsLaidOut) :
    preorderAll nodes = (walkAll nodes).map withoutBlocks :=
  preorderAll_eq_map_of_forall fun node hnode => preorder_eq_map_walk node fun inner hinner =>
    hlaid inner (mem_walkAll.mpr ⟨node, hnode, hinner⟩)

private theorem isLaidOut_of_single {node : Node} (hsingle : node.IsSingle)
    (hsort : node.sort ≠ Opener.cond.sort) :
    ∀ inner ∈ node.walk, inner.IsLaidOut := by
  intro inner hinner
  have hplain : node.isConditional = false := by
    cases node with
    | ifElse condition thenBlock elseBlock => exact absurd rfl hsort
    | _ => rfl
  rw [walk_of_plain hplain, List.mem_singleton] at hinner
  rw [hinner]
  exact .single hplain hsingle

private theorem isLaidOut_of_forall_single {items : List Node}
    (hitems : ∀ node ∈ items, node.IsSingle ∧ node.sort ≠ Opener.cond.sort) :
    ∀ inner ∈ walkAll items, inner.IsLaidOut := by
  intro inner hinner
  obtain ⟨node, hnode, hinner⟩ := mem_walkAll.mp hinner
  obtain ⟨hsingle, hsort⟩ := hitems node hnode
  exact isLaidOut_of_single hsingle hsort inner hinner

/-- The statements of a program of single statements and conditionals are laid out. -/
theorem Formed.isLaidOut {node : Node} {condition : Node → Prop}
    (hformed : node.Formed (fun node => node.IsSingle ∧ node.sort ≠ Opener.cond.sort) condition) :
    ∀ inner ∈ node.walk, inner.IsLaidOut := by
  intro inner hinner
  cases hformed with
  | plain hnode => exact isLaidOut_of_single hnode.1 hnode.2 inner hinner
  | absent =>
      exact isLaidOut_of_single (show Node.absent.IsSingle from rfl) (by decide) inner hinner
  | conditional htest hthen helse =>
      rw [walk_ifElse, List.mem_cons, List.mem_append] at hinner
      rcases hinner with rfl | hinner | hinner
      · exact .conditional ..
      · exact isLaidOut_of_forall_single hthen inner hinner
      · exact isLaidOut_of_forall_single helse inner hinner

end Node

/-- **Code follows the lines.**  The statements of a program that is read, in the order in which
code is generated for them, are those of the lines that are placed. -/
theorem walkAll_of_read {lines : List TokenLine} {statements : List Node}
    (hread : Reader.read lines = .ok statements) :
    (Node.walkAll statements).map Node.withoutBlocks = (placed lines).map (headAt lines) := by
  rw [← preorderAll_of_read hread, Node.preorderAll_eq_map_walkAll]
  intro inner hinner
  obtain ⟨node, hnode, hinner⟩ := Node.mem_walkAll.mp hinner
  exact (Reader.formed_single_of_read hread node hnode).isLaidOut inner hinner

end LineCompiler
