import Mathlib.Data.List.Induction
import LineCompiler.Proofs.Assembly.Lines

/-!
# Histories of additions

Code is added to the sections one addition after another, and an addition that names no section is
refused and changes nothing.  Whatever the history, a section lists the labels that were named for
it in the order in which each was first named, and under each label the lines that were given for
it, in order (`blocks_receiveAll`).  Nothing else of the history shows: the labels are there also if
no line came with them, code without a label is code under `noLabel`, and it does not matter in
which shape lines were handed over.

One addition puts its label behind the others unless it is there (`map_label_addCode`), and its
lines behind the lines of the label (`linesUnder_addCode`).  Both go through a whole history by
induction from its end.
-/

namespace LineCompiler

/-- Code that is added to the section of the given name, under a label or under none. -/
structure Addition where
  place : String
  label : Option String
  code : Code
  deriving DecidableEq

namespace Addition

/-- The section of an addition, if there is one of that name. -/
def target? (addition : Addition) : Option SectionName :=
  SectionName.ofSpelling? addition.place

/-- The label that the code of an addition goes under. -/
def block (addition : Addition) : String :=
  addition.label.getD noLabel

/-- The lines that an addition adds. -/
def lines (addition : Addition) : List String :=
  addition.code.all.filter (· ≠ "")

/-- The write of an addition to a section. -/
def write (target : SectionName) (addition : Addition) : Write :=
  { target, label := addition.block, code := addition.code.all }

/-- The write that an addition makes, unless it is refused. -/
def write? (addition : Addition) : Option Write :=
  addition.target?.map fun target => addition.write target

/-- The label of an addition is there already; one that is refused has no label. -/
def IsKnown (sections : Sections) (addition : Addition) : Prop :=
  ∀ name, addition.target? = some name → addition.block ∈ (sections.get name).map Block.label

end Addition

namespace Sections

/-- Sections after an addition. -/
def receive (sections : Sections) (addition : Addition) : Sections :=
  match sections.addNamed addition.place addition.label addition.code with
  | .error _ => sections
  | .ok after => after

/-- Sections after a history of additions. -/
def receiveAll (sections : Sections) (additions : List Addition) : Sections :=
  additions.foldl receive sections

end Sections

/-- The labels that a history names for a section, in the order in which each is first named. -/
def labelsNamed (name : SectionName) (additions : List Addition) : List String :=
  ((additions.filter fun addition => addition.target? = some name).map Addition.block).eraseDups

/-- The lines that a history gives for a label of a section. -/
def linesGiven (name : SectionName) (label : String) (additions : List Addition) : List String :=
  (additions.filter fun addition => addition.block = label ∧ addition.target? = some name).flatMap
    Addition.lines

/-! ## Which sections there are -/

theorem SectionName.ofSpelling?_eq_none_iff {name : String} :
    ofSpelling? name = none ↔ name ∉ ["data", "bss", "text"] := by
  simp [ofSpelling?, spelling, @eq_comm _ _ name]

private theorem Sections.addNamed_of_unknown {name : String}
    (hname : name ∉ ["data", "bss", "text"]) (sections : Sections) (label : Option String)
    (code : Code) :
    sections.addNamed name label code = .error (.unknownSection name) := by
  rw [addNamed, SectionName.ofSpelling?_eq_none_iff.mpr hname]

/-- An addition is the write that it makes. -/
theorem Sections.receive_eq (sections : Sections) (addition : Addition) :
    sections.receive addition = sections.apply addition.write?.toList := by
  unfold receive addNamed Addition.write? Addition.target?
  cases SectionName.ofSpelling? addition.place with
  | none => rfl
  | some name => rfl

theorem Sections.apply_append (sections : Sections) (first second : List Write) :
    sections.apply (first ++ second) = (sections.apply first).apply second :=
  List.foldl_append

private theorem Sections.receiveAll_eq (sections : Sections) (additions : List Addition) :
    sections.receiveAll additions = sections.apply (additions.filterMap Addition.write?) := by
  induction additions generalizing sections with
  | nil => rfl
  | cons addition rest ih =>
      have hfirst : (addition :: rest).filterMap Addition.write? =
          addition.write?.toList ++ rest.filterMap Addition.write? := by
        cases hwrite : addition.write? <;> simp [hwrite]
      rw [hfirst, apply_append, ← receive_eq, ← ih]
      rfl

/-! ## The labels of a section -/

private theorem map_label_addCode (label : String) (code : List String) (blocks : List Block) :
    (addCode label code blocks).map Block.label =
      if label ∈ blocks.map Block.label then blocks.map Block.label
      else blocks.map Block.label ++ [label] := by
  induction blocks with
  | nil => rfl
  | cons block rest ih =>
      rw [addCode]
      by_cases hsame : block.label = label
      · simp [hsame]
      · rw [if_neg hsame, List.map_cons, ih]
        by_cases hrest : label ∈ rest.map Block.label
        · rw [if_pos hrest, List.map_cons, if_pos (List.mem_cons_of_mem _ hrest)]
        · have hnew : label ∉ (block :: rest).map Block.label := by
            rw [List.map_cons, List.mem_cons, not_or]
            exact ⟨Ne.symm hsame, hrest⟩
          rw [if_neg hrest, if_neg hnew]
          rfl

private theorem eraseDups_append_singleton (front : List String) (item : String) :
    (front ++ [item]).eraseDups =
      if item ∈ front then front.eraseDups else front.eraseDups ++ [item] := by
  rw [List.eraseDups_append]
  by_cases hmem : item ∈ front
  · have hnone : [item].removeAll front = [] := by simp [List.removeAll, hmem]
    rw [if_pos hmem, hnone, List.eraseDups_nil, List.append_nil]
  · have hnew : [item].removeAll front = [item] := by simp [List.removeAll, hmem]
    rw [if_neg hmem, hnew]
    rfl

/-- A section lists the labels of its writes, each where it was first named. -/
theorem map_label_addAll (writes : List Write) :
    (addAll [] writes).map Block.label = (writes.map Write.label).eraseDups := by
  induction writes using List.reverseRecOn with
  | nil => rfl
  | append_singleton writes write ih =>
      rw [addAll_append, addAll_cons, addAll_nil, map_label_addCode, ih, List.map_append,
        List.map_cons, List.map_nil, eraseDups_append_singleton]
      simp only [List.mem_eraseDups]

/-! ## The blocks of a section -/

/-- Blocks with different labels are known from their labels and the lines under these. -/
theorem blocks_eq_map_linesUnder {blocks : List Block} (hnodup : (blocks.map Block.label).Nodup) :
    blocks = (blocks.map Block.label).map fun label => ⟨label, linesUnder label blocks⟩ := by
  have hlines : ∀ block ∈ blocks, linesUnder block.label blocks = block.lines := by
    induction blocks with
    | nil => simp
    | cons first rest ih =>
        rw [List.map_cons, List.nodup_cons] at hnodup
        intro block hblock
        rw [linesUnder_cons]
        rcases List.mem_cons.mp hblock with rfl | hrest
        · rw [if_pos rfl, linesUnder_of_not_mem hnodup.1, List.append_nil]
        · have hother : first.label ≠ block.label := fun heq =>
            hnodup.1 (heq ▸ List.mem_map_of_mem hrest)
          rw [if_neg hother, List.nil_append, ih hnodup.2 block hrest]
  have hself : blocks.map (fun block => ⟨block.label, linesUnder block.label blocks⟩) = blocks :=
    (List.map_congr_left fun block hblock => by rw [hlines block hblock]; rfl).trans
      (List.map_id blocks)
  rw [List.map_map]
  exact hself.symm

section History

variable (additions : List Addition) (name : SectionName)

/-- The writes of a history to a section. -/
theorem filter_write? :
    (additions.filterMap Addition.write?).filter (fun write => write.target = name) =
      (additions.filter fun addition => addition.target? = some name).map
        (Addition.write name) := by
  induction additions with
  | nil => rfl
  | cons addition rest ih =>
      cases htarget : addition.target? with
      | none => simp [Addition.write?, htarget, ← ih]
      | some target =>
          by_cases hname : target = name
          · simp [Addition.write?, Addition.write, htarget, hname, ← ih]
          · simp [Addition.write?, Addition.write, htarget, hname, ← ih]

/-- **A history is known by its labels.**  A section has a block for each label that the history
names for it, in the order in which they are first named, with the lines that the history gives for
the label. -/
theorem blocks_receiveAll :
    (Sections.receiveAll {} additions).get name =
      (labelsNamed name additions).map fun label => ⟨label, linesGiven name label additions⟩ := by
  have hempty : Sections.get {} name = [] := by cases name <;> rfl
  have hnodup := @nodup_addAll [] List.nodup_nil
  rw [Sections.receiveAll_eq, Sections.get_apply, hempty, filter_write?]
  generalize hwrites :
    (additions.filter fun addition => addition.target? = some name).map
      (Addition.write name) = writes
  have hlabels : (addAll [] writes).map Block.label = labelsNamed name additions := by
    rw [map_label_addAll, ← hwrites, List.map_map]
    rfl
  rw [blocks_eq_map_linesUnder (hnodup writes), hlabels]
  apply List.map_congr_left
  intro label _
  have hlines : linesUnder label (addAll [] writes) = linesGiven name label additions := by
    rw [@linesUnder_addAll label [] List.nodup_nil, ← hwrites, List.filter_map, List.filter_filter,
      List.flatMap_map, List.filter_flatMap, linesGiven]
    simp only [Function.comp_def, Bool.decide_and]
    rfl
  rw [hlines]

end History

/-- Sections are known from their blocks. -/
theorem Sections.ext_get {first second : Sections}
    (hget : ∀ name, first.get name = second.get name) :
    first = second := by
  obtain ⟨data, bss, text⟩ := first
  obtain rfl : data = second.data := hget .data
  obtain rfl : bss = second.bss := hget .bss
  obtain rfl : text = second.text := hget .text
  rfl

/-! ## Additions that change places -/

/-- Lines for two labels that are there can be added in either order. -/
theorem addCode_comm {first second : String} {blocks : List Block} (hne : first ≠ second)
    (hfirst : first ∈ blocks.map Block.label) (hsecond : second ∈ blocks.map Block.label)
    (code more : List String) :
    addCode second more (addCode first code blocks) =
      addCode first code (addCode second more blocks) := by
  induction blocks with
  | nil => simp at hfirst
  | cons block rest ih =>
      rw [List.map_cons, List.mem_cons] at hfirst hsecond
      by_cases hhere : block.label = first
      · have hother : block.label ≠ second := fun heq => hne (hhere.symm.trans heq)
        simp only [addCode, if_pos hhere, if_neg hother]
      · by_cases hthere : block.label = second
        · simp only [addCode, if_neg hhere, if_pos hthere]
        · have hrest :=
            ih (hfirst.resolve_left (Ne.symm hhere)) (hsecond.resolve_left (Ne.symm hthere))
          simp only [addCode, if_neg hhere, if_neg hthere, hrest]

theorem Sections.receive_of_target {addition : Addition} {name : SectionName}
    (htarget : addition.target? = some name) (sections : Sections) :
    sections.receive addition = sections.add name addition.block addition.code.all := by
  rw [receive_eq, Addition.write?, htarget]
  rfl

theorem Sections.receive_of_unknown {addition : Addition} (htarget : addition.target? = none)
    (sections : Sections) : sections.receive addition = sections := by
  rw [receive_eq, Addition.write?, htarget]
  rfl

private theorem Addition.target?_inj {first second : Addition} {name : SectionName}
    (hfirst : first.target? = some name) (hsecond : second.target? = some name) :
    first.place = second.place := by
  have hspelling : ∀ addition : Addition, addition.target? = some name →
      name.spelling = addition.place :=
    fun addition htarget => by simpa using List.find?_some htarget
  rw [← hspelling first hfirst, hspelling second hsecond]

/-- Two additions to different blocks that are there can be made in either order. -/
theorem Sections.receive_comm {sections : Sections} {first second : Addition}
    (hne : (first.place, first.block) ≠ (second.place, second.block))
    (hfirst : first.IsKnown sections) (hsecond : second.IsKnown sections) :
    (sections.receive first).receive second = (sections.receive second).receive first := by
  cases hone : first.target? with
  | none => rw [receive_of_unknown hone, receive_of_unknown hone]
  | some name =>
      cases htwo : second.target? with
      | none => rw [receive_of_unknown htwo, receive_of_unknown htwo]
      | some other =>
          simp only [receive_of_target hone, receive_of_target htwo]
          apply ext_get
          intro target
          simp only [get_add]
          by_cases hname : name = target
          · by_cases hother : other = target
            · -- Both go to the same section, so they go to different labels of it.
              subst hname hother
              have hlabel : first.block ≠ second.block := fun heq =>
                hne (Prod.ext (Addition.target?_inj hone htwo) heq)
              simp only [if_true]
              exact addCode_comm hlabel (hfirst _ hone) (hsecond _ htwo) _ _
            · simp only [if_neg hother]
          · simp only [if_neg hname]

theorem Sections.receiveAll_append (sections : Sections) (before after : List Addition) :
    sections.receiveAll (before ++ after) = (sections.receiveAll before).receiveAll after :=
  List.foldl_append

/-! ## All together -/

/-- **Sections are determined label by label.**  After every history of additions to empty sections:

* each section has the labels that were named for it, in the order in which each was first named,
  and under each label the lines with content that were given for it, in order;
* an addition is refused if and only if it names none of the three sections, and then changes
  nothing;
* every history that names the same labels in the same order for each section, and gives the same
  lines for each label, has the same assembly text;
* two additions in a row to different blocks that are there already can be exchanged. -/
theorem sections_receiveAll (additions : List Addition) :
    (∀ name, (Sections.receiveAll {} additions).get name =
      (labelsNamed name additions).map fun label => ⟨label, linesGiven name label additions⟩) ∧
    (∀ sections : Sections, ∀ addition : Addition,
      (addition.place ∈ ["data", "bss", "text"] →
        sections.addNamed addition.place addition.label addition.code =
          .ok (sections.receive addition)) ∧
      (addition.place ∉ ["data", "bss", "text"] →
        sections.addNamed addition.place addition.label addition.code =
            .error (.unknownSection addition.place) ∧
          (Fault.unknownSection addition.place).message? =
            some ("Unknown section: " ++ addition.place) ∧
          sections.receive addition = sections)) ∧
    (∀ others : List Addition, (∀ name, labelsNamed name others = labelsNamed name additions) →
      (∀ name label, linesGiven name label others = linesGiven name label additions) →
      (Sections.receiveAll {} others).assembly = (Sections.receiveAll {} additions).assembly) ∧
    (∀ first second : Addition, ∀ after : List Addition,
      (first.place, first.block) ≠ (second.place, second.block) →
      first.IsKnown (Sections.receiveAll {} additions) →
      second.IsKnown (Sections.receiveAll {} additions) →
      Sections.receiveAll {} (additions ++ first :: second :: after) =
        Sections.receiveAll {} (additions ++ second :: first :: after)) := by
  refine ⟨blocks_receiveAll additions, ?_, ?_, ?_⟩
  · intro sections addition
    constructor
    · intro hplace
      cases htarget : addition.target? with
      | none => exact absurd hplace (SectionName.ofSpelling?_eq_none_iff.mp htarget)
      | some name =>
          rw [Sections.receive_of_target htarget, Sections.addNamed,
            show SectionName.ofSpelling? addition.place = some name from htarget]
          rfl
    · intro hplace
      exact ⟨Sections.addNamed_of_unknown hplace _ _ _, rfl,
        Sections.receive_of_unknown (SectionName.ofSpelling?_eq_none_iff.mpr hplace) sections⟩
  · intro others hlabels hlines
    congr 1
    apply Sections.ext_get
    intro name
    rw [blocks_receiveAll, blocks_receiveAll, hlabels]
    exact List.map_congr_left fun label _ => by rw [hlines]
  · intro first second after hne hfirst hsecond
    rw [Sections.receiveAll_append, Sections.receiveAll_append]
    exact congrArg (Sections.receiveAll · after) (Sections.receive_comm hne hfirst hsecond)

/-- A label that comes without a line, a refused addition, and code with and without the label for
code that has none. -/
theorem sections_receiveAll_mixedShapes :
    let additions : List Addition :=
      [⟨"text", some "main", .other⟩, ⟨"text", none, .line "global _start\n"⟩,
        ⟨"rodata", some "table", .line "dq 1\n"⟩,
        ⟨"text", some "no_label", .lines ["", "extern exit\n"]⟩]
    let first : Addition := ⟨"text", some "main", .line "ret\n"⟩
    let second : Addition := ⟨"text", none, .line "extern open\n"⟩
    (Sections.receiveAll {} additions).get .text =
        [⟨"main", []⟩, ⟨"no_label", ["global _start\n", "extern exit\n"]⟩] ∧
      Sections.receiveAll {} (additions ++ [first, second]) =
        Sections.receiveAll {} (additions ++ [second, first]) := by
  intro additions first second
  obtain ⟨hblocks, -, -, hexchange⟩ := sections_receiveAll additions
  have htext : (Sections.receiveAll {} additions).get .text =
      [⟨"main", []⟩, ⟨"no_label", ["global _start\n", "extern exit\n"]⟩] :=
    (hblocks .text).trans (by decide +kernel)
  have hknown : ∀ addition : Addition, addition.target? = some .text →
      addition.block ∈ ["main", "no_label"] →
        addition.IsKnown (Sections.receiveAll {} additions) := by
    intro addition htarget hlabel name hname
    obtain rfl : SectionName.text = name := Option.some.inj (htarget.symm.trans hname)
    rw [htext]
    exact hlabel
  exact ⟨htext, hexchange first second [] (by decide) (hknown first (by decide) (by decide))
    (hknown second (by decide) (by decide))⟩

end LineCompiler
