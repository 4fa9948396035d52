import LineCompiler.Proofs.Assembly.Sections
import LineCompiler.Proofs.Assembly.Statements

/-!
# Code under names that are declared later

Names have a part in code generation at one place only: an argument of a system call that is the
name of a constant or a variable is put in brackets.  So if more names are declared, the emission of
a program keeps its form, its draws and its fault, and each argument that has become the name of a
constant or a variable adds two characters to it (`grown_program`).  The length of the assembly text
follows suit (`length_assembly`), so the text stays the same only if there is no such argument.
-/

namespace LineCompiler

/-! ## How long a text is -/

/-- How many characters lines have. -/
def lineSize : List String → Nat
  | [] => 0
  | line :: lines => line.length + lineSize lines

@[simp] theorem lineSize_append (first second : List String) :
    lineSize (first ++ second) = lineSize first + lineSize second := by
  induction first with
  | nil => exact (Nat.zero_add _).symm
  | cons line lines ih => rw [List.cons_append, lineSize, lineSize, ih, Nat.add_assoc]

theorem length_join (lines : List String) : (String.join lines).length = lineSize lines := by
  induction lines with
  | nil => rfl
  | cons line lines ih => rw [String.join_cons, String.length_append, ih, lineSize]

theorem lineSize_filter (lines : List String) :
    lineSize (lines.filter (· ≠ "")) = lineSize lines := by
  induction lines with
  | nil => rfl
  | cons line lines ih =>
      by_cases hempty : line = ""
      · rw [List.filter_cons_of_neg (by simpa using hempty), ih, hempty]
        exact (Nat.zero_add _).symm
      · rw [List.filter_cons_of_pos (by simpa using hempty), lineSize, lineSize, ih]

/-- What can be told of a block without its lines: its label, and whether it has a line. -/
def Block.frame (block : Block) : String × Bool :=
  (block.label, block.lines.isEmpty)

/-- How many characters lines of blocks have. -/
def blockSize (blocks : List Block) : Nat :=
  lineSize (blocks.flatMap Block.lines)

section Blocks

variable {first second : List Block} {label : String} {code other : List String}

@[simp] theorem blockSize_cons (block : Block) (blocks : List Block) :
    blockSize (block :: blocks) = lineSize block.lines + blockSize blocks := by
  rw [blockSize, List.flatMap_cons, lineSize_append]
  rfl

private theorem length_text {block other : Block} (hframe : block.frame = other.frame) :
    block.text.length + lineSize other.lines = other.text.length + lineSize block.lines := by
  obtain ⟨label, lines⟩ := block
  obtain ⟨otherLabel, otherLines⟩ := other
  obtain ⟨rfl, hempty⟩ : label = otherLabel ∧ lines.isEmpty = otherLines.isEmpty :=
    Prod.mk.inj hframe
  unfold Block.text
  simp only [hempty]
  split
  · next hnil =>
      rw [hnil] at hempty
      rw [List.isEmpty_iff.mp hempty, List.isEmpty_iff.mp hnil]
  · split
    · rw [length_join, length_join]
      exact Nat.add_comm _ _
    · rw [String.length_append, String.length_append _ (String.join otherLines), length_join,
        length_join]
      omega

private theorem length_texts (hframes : first.map Block.frame = second.map Block.frame) :
    (String.join (first.map Block.text)).length + blockSize second =
      (String.join (second.map Block.text)).length + blockSize first := by
  induction first generalizing second with
  | nil =>
      rw [List.map_eq_nil_iff.mp hframes.symm]
  | cons block rest ih =>
      obtain ⟨other, others, rfl, hframe, hrest⟩ := List.map_eq_cons_iff.mp hframes.symm
      have htext := length_text hframe.symm
      have htexts := ih hrest.symm
      simp only [List.map_cons, String.join_cons, String.length_append, blockSize_cons]
      omega

theorem length_sectionText (name : SectionName)
    (hframes : first.map Block.frame = second.map Block.frame) :
    (sectionText name first).length + blockSize second =
      (sectionText name second).length + blockSize first := by
  have hlength := congrArg List.isEmpty hframes
  rw [List.isEmpty_map, List.isEmpty_map] at hlength
  have htexts := length_texts hframes
  unfold sectionText
  rw [hlength]
  split
  · next hnil =>
      rw [hnil] at hlength
      rw [List.isEmpty_iff.mp hnil, List.isEmpty_iff.mp hlength]
  · rw [String.length_append, String.length_append _ (String.join (second.map Block.text))]
    omega

private theorem frame_addCode (hblocks : first.map Block.frame = second.map Block.frame)
    (hcode : (code.filter (· ≠ "")).isEmpty = (other.filter (· ≠ "")).isEmpty) :
    (addCode label code first).map Block.frame = (addCode label other second).map Block.frame := by
  induction first generalizing second with
  | nil =>
      rw [List.map_eq_nil_iff.mp hblocks.symm, addCode, addCode]
      exact congrArg (fun empty => [(label, empty)]) hcode
  | cons block rest ih =>
      obtain ⟨otherBlock, others, rfl, hframe, hrest⟩ := List.map_eq_cons_iff.mp hblocks.symm
      obtain ⟨hlabel, hempty⟩ : otherBlock.label = block.label ∧
          otherBlock.lines.isEmpty = block.lines.isEmpty :=
        Prod.mk.inj hframe
      rw [addCode, addCode, hlabel]
      split
      · have hlines : (block.lines ++ code.filter (· ≠ "")).isEmpty =
            (otherBlock.lines ++ other.filter (· ≠ "")).isEmpty := by
          rw [Bool.eq_iff_iff, List.isEmpty_iff, List.isEmpty_iff, List.append_eq_nil_iff,
            List.append_eq_nil_iff, ← List.isEmpty_iff, ← List.isEmpty_iff, ← List.isEmpty_iff,
            ← List.isEmpty_iff, hempty, hcode]
        simp only [List.map_cons, Block.frame, hlines, hrest]
      · rw [List.map_cons, List.map_cons, hframe, ih hrest.symm]

private theorem blockSize_addCode (label : String) (code : List String) (blocks : List Block) :
    blockSize (addCode label code blocks) = blockSize blocks + lineSize code := by
  induction blocks with
  | nil => simp [addCode, blockSize, lineSize, ← lineSize_filter code]
  | cons block rest ih =>
      rw [addCode]
      split
      · rw [blockSize_cons, blockSize_cons, lineSize_append, lineSize_filter]
        omega
      · rw [blockSize_cons, blockSize_cons, ih]
        omega

end Blocks

/-! ## How long an assembly text is -/

/-- What can be told of a write without its lines. -/
def Write.frame (write : Write) : SectionName × String × Bool :=
  (write.target, write.label, (write.code.filter (· ≠ "")).isEmpty)

/-- How many characters the lines of writes have. -/
def writeSize : List Write → Nat
  | [] => 0
  | write :: writes => lineSize write.code + writeSize writes

@[simp] theorem writeSize_append (first second : List Write) :
    writeSize (first ++ second) = writeSize first + writeSize second := by
  induction first with
  | nil => exact (Nat.zero_add _).symm
  | cons write writes ih => rw [List.cons_append, writeSize, writeSize, ih, Nat.add_assoc]

namespace Sections

/-- How many characters the lines of the sections have. -/
def size (sections : Sections) : Nat :=
  blockSize sections.data + blockSize sections.bss + blockSize sections.text

variable {first second : Sections} {writes others : List Write}

private theorem size_add (sections : Sections) (name : SectionName) (label : String)
    (code : List String) :
    (sections.add name label code).size = sections.size + lineSize code := by
  cases name <;> simp only [add, size, blockSize_addCode] <;> omega

theorem size_apply (sections : Sections) (writes : List Write) :
    (sections.apply writes).size = sections.size + writeSize writes := by
  induction writes generalizing sections with
  | nil => rfl
  | cons write writes ih =>
      rw [apply_cons, ih, size_add, writeSize, Nat.add_assoc]

private theorem frame_apply
    (hsections : ∀ name, (first.get name).map Block.frame = (second.get name).map Block.frame)
    (hwrites : writes.map Write.frame = others.map Write.frame) (name : SectionName) :
    ((first.apply writes).get name).map Block.frame =
      ((second.apply others).get name).map Block.frame := by
  induction writes generalizing first second others with
  | nil =>
      rw [List.map_eq_nil_iff.mp hwrites.symm]
      exact hsections name
  | cons write writes ih =>
      obtain ⟨other, rest, rfl, hframe, hrest⟩ := List.map_eq_cons_iff.mp hwrites.symm
      obtain ⟨htarget, hframe⟩ := Prod.mk.inj hframe
      obtain ⟨hlabel, hcode⟩ := Prod.mk.inj hframe
      rw [apply_cons, apply_cons]
      refine ih (fun name => ?_) hrest.symm
      rw [get_add, get_add, htarget, hlabel]
      split
      · exact frame_addCode (hsections name) hcode.symm
      · exact hsections name

/-- **How long the assembly text is.**  Writes of one form that are made to the same sections give
texts that differ in length just as the lines of the writes do. -/
theorem length_assembly (sections : Sections)
    (hwrites : writes.map Write.frame = others.map Write.frame) :
    (sections.apply writes).assembly.length + writeSize others =
      (sections.apply others).assembly.length + writeSize writes := by
  have hframe := @frame_apply sections sections writes others (fun _ => rfl) hwrites
  have hdata := length_sectionText .data (hframe .data)
  have hbss := length_sectionText .bss (hframe .bss)
  have htext := length_sectionText .text (hframe .text)
  have hsize := size_apply sections writes
  have hothers := size_apply sections others
  simp only [assembly, String.length_append, size, get] at *
  omega

end Sections

/-! ## Emissions that grow -/

/-- Two emissions of one form, of which the second has some arguments in brackets in addition. -/
structure Grown (count : Nat) (first second : Emission) : Prop where
  frame : first.writes.map Write.frame = second.writes.map Write.frame
  draws : second.draws = first.draws
  fault : second.fault = first.fault
  size : first.fault = none → writeSize second.writes = writeSize first.writes + 2 * count
  same : count = 0 → second = first

namespace Grown

variable {count more : Nat} {first second : Emission} {next after : Draws → Emission}

theorem refl (emission : Emission) : Grown 0 emission emission :=
  ⟨rfl, rfl, rfl, fun _ => rfl, fun _ => rfl⟩

/-- A failure does not tell how much would have been added after it. -/
theorem fail (count : Nat) (draws : Draws) (fault : Fault) :
    Grown count (.fail draws fault) (.fail draws fault) :=
  ⟨rfl, rfl, rfl, nofun, fun _ => rfl⟩

theorem andThen (hfirst : Grown count first second)
    (hnext : ∀ draws, Grown more (next draws) (after draws)) :
    Grown (count + more) (first.andThen next) (second.andThen after) := by
  have hafter := hnext first.draws
  cases hfault : first.fault with
  | some fault =>
      have hother := hfirst.fault
      rw [hfault] at hother
      -- The second emission is not reached, on neither side.
      simp only [Emission.andThen, hfault, hother]
      refine ⟨hfirst.frame, hfirst.draws, hfirst.fault, fun hnone => ?_,
        fun hzero => hfirst.same (by omega)⟩
      rw [hfault] at hnone
      cases hnone
  | none =>
      have hother := hfirst.fault
      rw [hfault] at hother
      simp only [Emission.andThen, hfault, hother, hfirst.draws]
      refine ⟨?_, hafter.draws, hafter.fault, fun hnone => ?_, fun hzero => ?_⟩
      · rw [List.map_append, List.map_append, hfirst.frame, hafter.frame]
      · rw [writeSize_append, writeSize_append, hfirst.size hfault, hafter.size hnone]
        omega
      · rw [hfirst.same (by omega), hafter.same (by omega)]

end Grown

namespace Generate

/-- Whether an argument has become the name of a constant or a variable. -/
def isNewlyStored (before after : Names) (argument : Node) : Bool :=
  isStored after argument && !isStored before argument

/-- How many arguments of a system call have become names of constants or variables. -/
def newlyStored (before after : Names) : Node → Nat
  | .syscall _ arguments _ => arguments.inBlock.countP (isNewlyStored before after)
  | _ => 0

/-- How many there are in statements. -/
def newlyStoredIn (before after : Names) : List Node → Nat
  | [] => 0
  | node :: rest => newlyStored before after node + newlyStoredIn before after rest

section Growth

variable {before after : Names}

theorem newlyStoredIn_append (first second : List Node) :
    newlyStoredIn before after (first ++ second) =
      newlyStoredIn before after first + newlyStoredIn before after second := by
  induction first with
  | nil => exact (Nat.zero_add _).symm
  | cons node rest ih => rw [List.cons_append, newlyStoredIn, newlyStoredIn, ih, Nat.add_assoc]

theorem newlyStoredIn_eq_zero_iff {nodes : List Node} :
    newlyStoredIn before after nodes = 0 ↔ ∀ node ∈ nodes, newlyStored before after node = 0 := by
  induction nodes with
  | nil => simp [newlyStoredIn]
  | cons node rest ih => rw [newlyStoredIn, Nat.add_eq_zero_iff, ih, List.forall_mem_cons]

/-- The arguments of the system calls in statements that are names of constants or variables are so
under both names. -/
def SameArguments (before after : Names) (statements : List Node) : Prop :=
  ∀ number arguments error, .syscall number arguments error ∈ Node.walkAll statements →
    ∀ argument ∈ arguments.inBlock, isStored after argument = isStored before argument

variable (hgrow : ∀ argument, isStored before argument = true → isStored after argument = true)
include hgrow

theorem newlyStoredIn_eq_zero_iff_same {statements : List Node} :
    newlyStoredIn before after (Node.walkAll statements) = 0 ↔
      SameArguments before after statements := by
  have hargument : ∀ argument, isNewlyStored before after argument = false ↔
      isStored after argument = isStored before argument := by
    intro argument
    cases hbefore : isStored before argument with
    | true => simp [isNewlyStored, hbefore, hgrow argument hbefore]
    | false => simp [isNewlyStored, hbefore]
  rw [newlyStoredIn_eq_zero_iff]
  constructor
  · intro hzero number arguments error hcall argument hmem
    have hcount := List.countP_eq_zero.mp (hzero _ hcall) argument hmem
    exact (hargument argument).mp (Bool.eq_false_iff.mpr hcount)
  · intro hsame node hnode
    cases node with
    | syscall number arguments error =>
        refine List.countP_eq_zero.mpr fun argument hmem => ?_
        exact Bool.eq_false_iff.mp
          ((hargument argument).mpr (hsame number arguments error hnode argument hmem))
    | _ => rfl

/-- The text of an argument gets brackets if the argument has become the name of a constant or a
variable. -/
theorem argumentText_grown (argument : Node) :
    argumentText after argument =
      (argumentText before argument).map fun text =>
        if isNewlyStored before after argument then "[" ++ text ++ "]" else text := by
  unfold argumentText
  split
  · next target => cases target.name <;> rfl
  · refine congrArg Except.ok ?_
    cases hbefore : isStored before argument with
    | true => simp [isNewlyStored, hbefore, hgrow argument hbefore]
    | false => cases hafter : isStored after argument <;> simp [isNewlyStored, hbefore, hafter]

private theorem grown_loadArguments (label : String) (draws : Draws) (registers : List String)
    (arguments : List Node) :
    Grown (arguments.countP (isNewlyStored before after))
      (loadArguments before label draws registers arguments)
      (loadArguments after label draws registers arguments) := by
  induction arguments generalizing registers draws with
  | nil =>
      cases registers <;> exact Grown.refl _
  | cons argument arguments ih =>
      cases registers with
      | nil => exact Grown.fail ..
      | cons register registers =>
          rw [loadArguments, loadArguments, argumentText_grown hgrow]
          cases htext : argumentText before argument with
          | error fault => exact Grown.fail ..
          | ok text =>
              rw [List.countP_cons, Nat.add_comm]
              refine Grown.andThen ?_ fun draws => ih draws registers
              by_cases hnew : isNewlyStored before after argument = true
              · simp only [hnew, if_true]
                refine ⟨?_, rfl, rfl, fun _ => ?_, fun hzero => absurd hzero (by decide)⟩
                · simp [Write.frame, inText, instruction_ne_empty]
                · have hopen : "[".length = 1 := rfl
                  have hclose : "]".length = 1 := rfl
                  simp only [Emission.write_writes, writeSize, inText, lineSize, instruction,
                    String.length_append]
                  omega
              · simp only [hnew]
                exact Grown.refl _

private theorem grown_syscall (label : String) (number arguments error : Node) (draws : Draws) :
    Grown (arguments.inBlock.countP (isNewlyStored before after))
      (syscall before label number arguments error draws)
        (syscall after label number arguments error draws) := by
  unfold syscall
  cases error.name with
  | error fault => exact Grown.fail ..
  | ok error =>
      have hload : ∀ draws, Grown (arguments.inBlock.countP (isNewlyStored before after))
          (loadItems before label draws arguments) (loadItems after label draws arguments) := by
        intro draws
        unfold loadItems Node.inBlock
        cases arguments.items with
        | error fault => exact Grown.fail ..
        | ok items => exact grown_loadArguments hgrow label draws argumentRegisters items
      rw [← Nat.zero_add (List.countP _ _)]
      exact ((Grown.refl _).andThen hload).andThen fun _ => Grown.refl _

/-- The emission of a statement grows by the arguments in it. -/
def Grows (before after : Names) (node : Node) : Prop :=
  ∀ label draws, Grown (newlyStoredIn before after node.walk) (statement before label draws node)
    (statement after label draws node)

omit hgrow in
private theorem grown_blockItems_of {items : List Node}
    (hitems : ∀ item ∈ items, Grows before after item) (label : String) (draws : Draws) :
    Grown (newlyStoredIn before after (Node.walkAll items)) (blockItems before label draws items)
      (blockItems after label draws items) := by
  induction items generalizing draws with
  | nil => exact Grown.refl _
  | cons item rest ih =>
      have hitem := hitems item (List.mem_cons_self ..) label draws
      have hrest := ih fun other hother => hitems other (List.mem_cons_of_mem _ hother)
      rw [Node.walkAll, newlyStoredIn_append, blockItems, blockItems]
      exact (hitem.andThen fun _ => Grown.refl _).andThen hrest

omit hgrow in
theorem grown_block_of {items : Node} (hitems : ∀ item ∈ items.inBlock, Grows before after item)
    (label : String) (draws : Draws) :
    Grown (newlyStoredIn before after (Node.walkAll items.inBlock)) (block before label draws items)
      (block after label draws items) := by
  by_cases hlist : ∃ nodes, items = .list nodes
  · obtain ⟨nodes, rfl⟩ := hlist
    rw [block, block]
    exact grown_blockItems_of hitems label draws
  · have hother : ∀ nodes, items = .list nodes → False := fun nodes heq => hlist ⟨nodes, heq⟩
    have htexts : ∀ item ∈ items.inBlock, ∃ content, item = .text content := fun item =>
      Node.text_of_mem_inBlock hother
    have hzero : newlyStoredIn before after (Node.walkAll items.inBlock) = 0 := by
      rw [Node.walkAll_of_texts htexts, newlyStoredIn_eq_zero_iff]
      intro item hitem
      obtain ⟨content, rfl⟩ := htexts item hitem
      rfl
    rw [hzero, block_other hother, block_other hother]
    exact Grown.refl _

private theorem grows_statement (node : Node) : Grows before after node := by
  induction node using Node.blockInduction with
  | plain node hplain =>
      intro label draws
      rw [Node.walk_of_plain hplain]
      cases node with
      | ifElse condition thenBlock elseBlock => exact nomatch hplain
      | syscall number arguments error =>
          rw [statement, statement]
          exact grown_syscall hgrow label number arguments error draws
      | _ => exact Grown.refl _
  | conditional condition thenBlock elseBlock hthen helse =>
      intro label draws
      rw [Node.walk_ifElse, newlyStoredIn, newlyStoredIn_append, statement, statement]
      -- The comparison and the jumps have no arguments; all growth is in the blocks.
      refine (Grown.refl _).andThen fun draws => ?_
      exact ((grown_block_of hthen _ _).andThen fun draws => grown_block_of helse _ draws).andThen
        fun _ => Grown.refl _

/-- **The emission of a program grows** by the arguments that have become names of constants or
variables. -/
theorem grown_program (draws : Draws) (statements : List Node) :
    Grown (newlyStoredIn before after (Node.walkAll statements))
      (program draws { statements, names := before })
        (program draws { statements, names := after }) := by
  have hstatements : ∀ draws, Grown (newlyStoredIn before after (Node.walkAll statements))
      (Generate.statements before draws statements)
        (Generate.statements after draws statements) := by
    induction statements with
    | nil => exact fun _ => Grown.refl _
    | cons node rest ih =>
        intro draws
        rw [Node.walkAll, newlyStoredIn_append, Generate.statements, Generate.statements]
        exact (grows_statement hgrow node mainLabel draws).andThen ih
  have hprogram := (Grown.refl (.write draws [prologue])).andThen hstatements
  rwa [Nat.zero_add] at hprogram

end Growth

end Generate

end LineCompiler
