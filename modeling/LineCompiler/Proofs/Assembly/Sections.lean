import LineCompiler.Assembly.Emission

/-!
# Sections after writes

The three sections do not touch each other: a section is made by the writes that name it, in their
order (`Sections.get_apply`).  Code that is added under a label goes to the end of the block of that
label, and the block is made, behind all others, if there is none yet.
-/

namespace LineCompiler

/-- The block of a label with its lines; a label without lines has no block. -/
def present (label : String) (lines : List String) : List Block :=
  if lines.isEmpty then [] else [⟨label, lines⟩]

/-- The blocks of a section after writes to it. -/
def addAll (blocks : List Block) (writes : List Write) : List Block :=
  writes.foldl (fun blocks write => addCode write.label write.code blocks) blocks

@[simp] theorem addAll_nil (blocks : List Block) : addAll blocks [] = blocks := rfl

@[simp] theorem addAll_cons (blocks : List Block) (write : Write) (writes : List Write) :
    addAll blocks (write :: writes) = addAll (addCode write.label write.code blocks) writes := rfl

theorem addAll_append (blocks : List Block) (first second : List Write) :
    addAll blocks (first ++ second) = addAll (addAll blocks first) second :=
  List.foldl_append

namespace Sections

theorem get_add (sections : Sections) (name target : SectionName) (label : String)
    (code : List String) :
    (sections.add name label code).get target =
      if name = target then addCode label code (sections.get target) else sections.get target := by
  cases name <;> cases target <;> rfl

@[simp] theorem apply_nil (sections : Sections) : sections.apply [] = sections := rfl

@[simp] theorem apply_cons (sections : Sections) (write : Write) (writes : List Write) :
    sections.apply (write :: writes) =
      (sections.add write.target write.label write.code).apply writes := rfl

/-- **A section is made by the writes that name it.** -/
theorem get_apply (sections : Sections) (writes : List Write) (target : SectionName) :
    (sections.apply writes).get target =
      addAll (sections.get target) (writes.filter fun write => write.target = target) := by
  induction writes generalizing sections with
  | nil => rfl
  | cons write writes ih =>
      rw [apply_cons, ih, get_add]
      by_cases htarget : write.target = target
      · simp [htarget]
      · simp [htarget]

end Sections

/-! ## One block -/

section Block

variable {label : String} {lines code : List String} {before after rest : List Block}

@[simp] theorem present_nil (label : String) : present label [] = [] := rfl

theorem present_of_ne_nil (hlines : lines ≠ []) : present label lines = [⟨label, lines⟩] := by
  rw [present, if_neg (by simpa using hlines)]

theorem mem_present {block : Block} :
    block ∈ present label lines ↔ lines ≠ [] ∧ block = ⟨label, lines⟩ := by
  by_cases hlines : lines = []
  · simp [hlines]
  · simp [present_of_ne_nil hlines, hlines]

theorem map_label_present_sublist (label : String) (lines : List String) :
    ((present label lines).map Block.label).Sublist [label] := by
  unfold present
  split
  · exact List.nil_sublist _
  · exact List.Sublist.refl _

theorem addCode_append (hlabel : label ∉ before.map Block.label) :
    addCode label code (before ++ rest) = before ++ addCode label code rest := by
  induction before with
  | nil => rfl
  | cons block before ih =>
      rw [List.map_cons, List.mem_cons, not_or] at hlabel
      rw [List.cons_append, addCode, if_neg (Ne.symm hlabel.1), ih hlabel.2, List.cons_append]

/-- Code goes to the end of its block, or makes it where no block stands behind. -/
theorem addCode_present (hcode : code ≠ []) (hempty : "" ∉ code)
    (hafter : lines = [] → after = []) :
    addCode label code (present label lines ++ after) = present label (lines ++ code) ++ after := by
  have hfilter : code.filter (· ≠ "") = code := by
    rw [List.filter_eq_self]
    intro line hline
    have hne : line ≠ "" := fun heq => hempty (heq ▸ hline)
    simpa using hne
  by_cases hlines : lines = []
  · rw [hafter hlines, hlines, List.nil_append, present_nil, present_of_ne_nil hcode]
    simp only [List.append_nil, addCode, hfilter]
  · rw [present_of_ne_nil hlines, present_of_ne_nil (by simp [hlines])]
    simp only [List.singleton_append, addCode, if_true, hfilter]

end Block

end LineCompiler
