import LineCompiler.Proofs.Program.Effect

/-!
# Where statements end up

A layout is a reading seen in pre-order: a conditional comes before the statements of its first
block, and these before the statements of its second block.  What stands in a layout may be of any
type: the nodes themselves, or only the positions of the lines they come from.

* `Reading.layout_apply`: reading a line moves the layout of a reading as the effect of the line
  says.
* `Layout.map_apply`: this does not depend on what stands in the layout.
* `preorderAll_settled`: a reading ends with the statements of its layout.
-/

namespace LineCompiler

/-! ## Pre-order -/

namespace Node

/-- A conditional without its blocks. -/
def head (condition : Node) : Node :=
  .ifElse condition (.list []) (.list [])

mutual

/-- A statement and the statements in it, in pre-order; conditionals appear without their blocks. -/
def preorder : Node → List Node
  | .ifElse condition thenBlock elseBlock =>
      head condition :: (thenBlock.preorder ++ elseBlock.preorder)
  | .list items => preorderAll items
  | node => [node]

/-- Statements and the statements in them, in pre-order. -/
def preorderAll : List Node → List Node
  | [] => []
  | node :: rest => node.preorder ++ preorderAll rest

end

theorem preorderAll_append (first second : List Node) :
    preorderAll (first ++ second) = preorderAll first ++ preorderAll second := by
  induction first with
  | nil => rfl
  | cons node rest ih => rw [List.cons_append, preorderAll, preorderAll, ih, List.append_assoc]

/-- A statement that has no statements in it. -/
def IsSingle (node : Node) : Prop :=
  node.preorder = [node]

private theorem preorderAll_singleton {node : Node} (hnode : node.IsSingle) :
    preorderAll [node] = [node] := by
  rw [preorderAll, preorderAll, List.append_nil, hnode]

end Node

/-! ## Layouts -/

namespace Effect

variable {α β : Type}

/-- An effect of which something else is said. -/
def map (f : α → β) : Effect α → Effect β
  | .pass => .pass
  | .statement content => .statement (f content)
  | .conditional content => .conditional (f content)
  | .close => .close
  | .closeElse => .closeElse
  | .openElse => .openElse

/-- What a line says of its statement or condition. -/
def content? : Effect α → Option α
  | .statement content | .conditional content => some content
  | _ => none

end Effect

/-- Statements in pre-order, with the conditional under construction kept apart. -/
structure Layout (α : Type) where
  /-- The statements in their places; a hole stands for the conditional under construction. -/
  items : List (Option α) := []
  /-- The conditional under construction: itself with its first block, and its second block. -/
  current : Option (List α × List α) := none
  inIf : Bool := false
  inElse : Bool := false

namespace Layout

variable {α β : Type} (null : α)

/-- What fills the holes; `null` does where there is no conditional. -/
def filling (layout : Layout α) : List α :=
  match layout.current with
  | none => [null]
  | some (front, back) => front ++ back

/-- Items with the holes filled. -/
def fill (filling : List α) (items : List (Option α)) : List α :=
  items.flatMap fun
    | none => filling
    | some item => [item]

/-- The statements with the holes filled. -/
def settled (layout : Layout α) : List α :=
  fill (layout.filling null) layout.items

/-- Adds a statement to the block that is open, or outside all blocks. -/
def add (layout : Layout α) (item : α) : Layout α :=
  if layout.inIf then
    { layout with current := layout.current.map fun parts => (parts.1 ++ [item], parts.2) }
  else if layout.inElse then
    { layout with current := layout.current.map fun parts => (parts.1, parts.2 ++ [item]) }
  else { layout with items := layout.items ++ [some item] }

/-- Closes the block that is open. -/
def closeBlock (layout : Layout α) : Layout α :=
  if layout.inIf then { layout with inIf := false }
  else if layout.inElse then { layout with inElse := false, items := layout.items ++ [none] }
  else layout

/-- Opens the second block. -/
def openElse (layout : Layout α) : Layout α :=
  { layout with inIf := false, inElse := true }

/-- A layout after a line with an effect. -/
def apply (layout : Layout α) : Effect α → Layout α
  | .pass => layout
  | .statement item => layout.add item
  | .conditional item =>
      { layout with
        items := (layout.settled null).map some
        current := some ([item], [])
        inIf := true }
  | .close => layout.closeBlock
  | .closeElse => layout.closeBlock.openElse
  | .openElse => layout.openElse

/-- A layout after lines with effects. -/
def run (layout : Layout α) (effects : List (Effect α)) : Layout α :=
  effects.foldl (apply null) layout

section Fill

variable (filling : List α)

@[simp] theorem fill_nil : fill filling [] = [] := rfl

@[simp] theorem fill_append (first second : List (Option α)) :
    fill filling (first ++ second) = fill filling first ++ fill filling second :=
  List.flatMap_append

@[simp] theorem fill_cons_none (items : List (Option α)) :
    fill filling (none :: items) = filling ++ fill filling items := rfl

@[simp] theorem fill_cons_some (item : α) (items : List (Option α)) :
    fill filling (some item :: items) = item :: fill filling items := rfl

@[simp] theorem fill_map_some (items : List α) : fill filling (items.map some) = items := by
  induction items with
  | nil => rfl
  | cons item items ih => rw [List.map_cons, fill_cons_some, ih]

end Fill

/-! ## What stands in a layout does not matter -/

/-- A layout in which something else stands. -/
def map (f : α → β) (layout : Layout α) : Layout β where
  items := layout.items.map (Option.map f)
  current := layout.current.map fun parts => (parts.1.map f, parts.2.map f)
  inIf := layout.inIf
  inElse := layout.inElse

variable (f : α → β)

theorem filling_map (layout : Layout α) :
    (layout.map f).filling (f null) = (layout.filling null).map f := by
  obtain ⟨items, current, inIf, inElse⟩ := layout
  cases current with
  | none => rfl
  | some parts => simp [map, filling]

theorem fill_map (filling : List α) (items : List (Option α)) :
    fill (filling.map f) (items.map (Option.map f)) = (fill filling items).map f := by
  induction items with
  | nil => rfl
  | cons item items ih => cases item <;> simp [ih]

theorem settled_map (layout : Layout α) :
    (layout.map f).settled (f null) = (layout.settled null).map f := by
  rw [settled, settled, filling_map, map, fill_map]

theorem map_add (layout : Layout α) (item : α) :
    (layout.add item).map f = (layout.map f).add (f item) := by
  obtain ⟨items, current, inIf, inElse⟩ := layout
  cases inIf <;> cases inElse <;> cases current <;> simp [map, add]

theorem map_closeBlock (layout : Layout α) :
    layout.closeBlock.map f = (layout.map f).closeBlock := by
  obtain ⟨items, current, inIf, inElse⟩ := layout
  cases inIf <;> cases inElse <;> simp [map, closeBlock]

theorem map_apply (layout : Layout α) (effect : Effect α) :
    (layout.apply null effect).map f = (layout.map f).apply (f null) (effect.map f) := by
  cases effect with
  | pass | openElse => rfl
  | statement item => exact map_add f layout item
  | close => exact map_closeBlock f layout
  | closeElse => exact congrArg openElse (map_closeBlock f layout)
  | conditional item =>
      simp only [apply, Effect.map, settled_map]
      simp [map]

theorem map_run (layout : Layout α) (effects : List (Effect α)) :
    (layout.run null effects).map f =
      (layout.map f).run (f null) (effects.map (Effect.map f)) := by
  induction effects generalizing layout with
  | nil => rfl
  | cons effect effects ih =>
      rw [List.map_cons, run, List.foldl_cons, run, List.foldl_cons, ← map_apply]
      exact ih _

end Layout

/-! ## The layout of a reading -/

namespace Reading

open Node (preorderAll)

/-- A conditional under construction, in pre-order. -/
def parts (conditional : Conditional) : List Node × List Node :=
  (Node.head conditional.condition :: preorderAll conditional.thenBlock,
    preorderAll conditional.elseBlock)

/-- A statement in its place, in pre-order. -/
def entries : Option Node → List (Option Node)
  | none => [none]
  | some node => node.preorder.map some

/-- A reading in pre-order. -/
def layout (reading : Reading) : Layout Node where
  items := reading.statements.flatMap entries
  current := reading.current.map parts
  inIf := reading.inIf
  inElse := reading.inElse

/-- What an effect says of a line, as it stands in a layout. -/
def headed : Effect Node → Effect Node
  | .conditional condition => .conditional (Node.head condition)
  | effect => effect

private theorem preorder_filling (reading : Reading) :
    ((reading.current.map Conditional.node).getD .absent).preorder =
      reading.layout.filling .absent := by
  unfold layout Layout.filling
  cases reading.current with
  | none => rfl
  | some conditional =>
      simp only [Option.map_some, Option.getD_some, Conditional.node, Node.preorder, parts,
        List.cons_append]

theorem preorderAll_settled (reading : Reading) :
    preorderAll reading.settled = reading.layout.settled .absent := by
  rw [Reading.settled, Layout.settled, ← reading.preorder_filling, layout]
  induction reading.statements with
  | nil => rfl
  | cons statement rest ih =>
      simp only [List.map_cons, List.flatMap_cons, Layout.fill_append, preorderAll, ih]
      cases statement with
      | none => simp [entries]
      | some node => simp [entries]

private theorem flatMap_entries_some (nodes : List Node) :
    (nodes.map some).flatMap entries = (preorderAll nodes).map some := by
  induction nodes with
  | nil => rfl
  | cons node rest ih =>
      rw [List.map_cons, List.flatMap_cons, ih, preorderAll, List.map_append, entries]

private theorem layout_add {reading reading' : Reading} {node : Node} (hnode : node.IsSingle)
    (hadd : reading.add node = .ok reading') : reading'.layout = reading.layout.add node := by
  obtain ⟨statements, current, inIf, inElse⟩ := reading
  have hsingle := Node.preorderAll_singleton hnode
  cases inIf with
  | true =>
      cases current with
      | none => exact nomatch hadd
      | some conditional =>
          cases hadd
          simp [layout, Layout.add, parts, Node.preorderAll_append, hsingle]
  | false =>
      cases inElse with
      | true =>
          cases current with
          | none => exact nomatch hadd
          | some conditional =>
              cases hadd
              simp [layout, Layout.add, parts, Node.preorderAll_append, hsingle]
      | false =>
          cases hadd
          have hentries : entries (some node) = [some node] := by
            rw [entries, hnode]
            rfl
          simp [layout, Layout.add, hentries]

theorem layout_closeBlock (reading : Reading) :
    reading.closeBlock.layout = reading.layout.closeBlock := by
  obtain ⟨statements, current, inIf, inElse⟩ := reading
  cases inIf <;> cases inElse <;> simp [closeBlock, Layout.closeBlock, layout, entries]

/-- **Reading a line moves the layout.** -/
theorem layout_apply {reading reading' : Reading} {effect : Effect Node}
    (hsingle : ∀ node, effect = .statement node → node.IsSingle)
    (happly : reading.apply effect = .ok reading') :
    reading'.layout = reading.layout.apply .absent (headed effect) := by
  cases effect with
  | statement node => exact layout_add (hsingle node rfl) happly
  | pass | openElse =>
      cases happly
      rfl
  | close =>
      cases happly
      exact reading.layout_closeBlock
  | closeElse =>
      cases happly
      exact congrArg Layout.openElse reading.layout_closeBlock
  | conditional condition =>
      cases happly
      simp only [openConditional, headed, Layout.apply, ← preorderAll_settled]
      simp only [layout, flatMap_entries_some]
      rfl

end Reading

end LineCompiler
