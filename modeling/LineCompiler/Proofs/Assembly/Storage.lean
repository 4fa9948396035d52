import LineCompiler.Proofs.Assembly.Sections
import LineCompiler.Proofs.Assembly.Statements
import LineCompiler.Session

/-!
# Where declarations are stored

The data and the bss section hold the declarations of all programs for which code was generated, in
pre-order and nothing else: one line for each constant, each variable with a value and each pointer
in the data section, and one line for each variable without a value in the bss section
(`storage_generateEach`).  Neither the draws nor the statements of other sorts have a part in it.
-/

namespace LineCompiler

/-- Whether a write goes to the data or the bss section. -/
def Write.isStorage (write : Write) : Bool :=
  write.target ≠ .text

namespace Generate

/-- The line that a statement stores in a section. -/
def storedLine? : SectionName → Node → Option String
  | .data => dataLine?
  | .bss => reserveLine?
  | .text => fun _ => none

private theorem storedLine?_ne_empty {target : SectionName} {node : Node} :
    storedLine? target node ≠ some "" := by
  have hline : ∀ text, some (instruction text) ≠ some "" := fun text heq =>
    instruction_ne_empty text (Option.some.inj heq)
  cases target with
  | text => exact nofun
  | data =>
      show dataLine? node ≠ some ""
      unfold dataLine?
      split
      · exact hline _
      · split
        · exact nofun
        · exact hline _
      · exact hline _
      · exact nofun
  | bss =>
      show reserveLine? node ≠ some ""
      unfold reserveLine?
      split
      · split
        · exact hline _
        · exact nofun
      · exact nofun

/-! ## What programs store -/

private theorem filter_storedWrites (node : Node) :
    (storedWrites node).filter Write.isStorage = storedWrites node := by
  rw [List.filter_eq_self]
  intro write hwrite
  rcases List.mem_append.mp hwrite with hmem | hmem
  · obtain ⟨line, -, rfl⟩ := List.mem_map.mp hmem
    rfl
  · obtain ⟨line, -, rfl⟩ := List.mem_map.mp hmem
    rfl

theorem filter_inText {α : Type} (label : String) (code : α → List String) (items : List α) :
    (items.map fun item => inText label (code item)).filter Write.isStorage = [] := by
  rw [List.filter_eq_nil_iff]
  intro write hwrite
  obtain ⟨item, -, rfl⟩ := List.mem_map.mp hwrite
  exact nofun

theorem storage_sequence_of {nodes : List Node}
    (hnodes : ∀ node ∈ nodes, ∀ names label draws, (statement names label draws node).fault = none →
      (statement names label draws node).writes.filter Write.isStorage =
        node.walk.flatMap storedWrites)
    {names : Names} {label : String} {ending : List String} {draws : Draws}
    (hok : (sequence names label ending draws nodes).fault = none) :
    (sequence names label ending draws nodes).writes.filter Write.isStorage =
      (Node.walkAll nodes).flatMap storedWrites := by
  induction nodes generalizing draws with
  | nil => rfl
  | cons node rest ih =>
      obtain ⟨hnode, hrest, heq⟩ := sequence_cons hok
      rw [heq, Emission.write_writes, List.filter_append, List.filter_append, filter_inText,
        List.append_nil, hnodes node (List.mem_cons_self ..) names label draws hnode,
        ih (fun other hother => hnodes other (List.mem_cons_of_mem _ hother)) hrest,
        Node.walkAll, List.flatMap_append]

/-- **A statement stores what the statements in it store**, in pre-order. -/
theorem storage_statement (node : Node) :
    ∀ names label draws, (statement names label draws node).fault = none →
      (statement names label draws node).writes.filter Write.isStorage =
        node.walk.flatMap storedWrites := by
  induction node using Node.blockInduction with
  | plain node hplain =>
      intro names label draws hok
      obtain ⟨pieces, -, -, heq⟩ := statement_plain hplain hok
      rw [heq, Emission.write_writes, List.filter_append, filter_inText, List.append_nil,
        filter_storedWrites, Node.walk_of_plain hplain, List.flatMap_singleton]
  | conditional condition thenBlock elseBlock hthen helse =>
      intro names label draws hok
      obtain ⟨_, _, thenPart, elsePart, -, -, rfl, hthenOk, rfl, helseOk, heq⟩ :=
        statement_ifElse hok
      have hthenStored := storage_sequence_of hthen hthenOk
      have helseStored := storage_sequence_of helse helseOk
      -- The comparison and the jumps go to the text section.
      rw [heq, Emission.write_writes, List.filter_cons_of_neg (by exact nofun), List.filter_append,
        List.filter_append, hthenStored, helseStored, Node.walk_ifElse, List.flatMap_cons,
        List.flatMap_append]
      exact List.append_nil _

/-! ## The two sections -/

private theorem filter_flatMap_storedWrites {target : SectionName} (htarget : target ≠ .text)
    (nodes : List Node) :
    (nodes.flatMap storedWrites).filter (fun write => write.target = target) =
      (nodes.filterMap (storedLine? target)).map fun line => { target, code := [line] } := by
  induction nodes with
  | nil => rfl
  | cons node rest ih =>
      have hnode : (storedWrites node).filter (fun write => write.target = target) =
          (storedLine? target node).toList.map fun line => { target, code := [line] } := by
        cases target with
        | text => exact absurd rfl htarget
        | data =>
            rw [storedWrites, storedLine?]
            cases dataLine? node <;> cases reserveLine? node <;> rfl
        | bss =>
            rw [storedWrites, storedLine?]
            cases dataLine? node <;> cases reserveLine? node <;> rfl
      rw [List.flatMap_cons, List.filter_append, hnode, ih]
      cases hline : storedLine? target node <;> simp [hline]

private theorem addAll_present (target : SectionName) (lines : List String) {more : List String}
    (hmore : "" ∉ more) :
    addAll (present noLabel lines) (more.map fun line => { target, code := [line] }) =
      present noLabel (lines ++ more) := by
  induction more generalizing lines with
  | nil => rw [List.map_nil, addAll_nil, List.append_nil]
  | cons line more ih =>
      rw [List.mem_cons, not_or] at hmore
      have hadd : addCode noLabel [line] (present noLabel lines) =
          present noLabel (lines ++ [line]) := by
        simpa using addCode_present (by simp) (by simpa using hmore.1) fun (_ : lines = []) => rfl
      rw [List.map_cons, addAll_cons, hadd, ih _ hmore.2, List.append_assoc, List.singleton_append]

private theorem empty_not_mem_stored (target : SectionName) (nodes : List Node) :
    "" ∉ nodes.filterMap (storedLine? target) := by
  intro hmem
  obtain ⟨node, -, hline⟩ := List.mem_filterMap.mp hmem
  exact storedLine?_ne_empty hline

/-- What the code of a program adds to a section of storage. -/
theorem get_apply_program {target : SectionName} (htarget : target ≠ .text) {draws : Draws}
    {program : Program} (hok : (Generate.program draws program).fault = none) {sections : Sections}
    {lines : List String} (hlines : sections.get target = present noLabel lines) :
    (sections.apply (Generate.program draws program).writes).get target =
      present noLabel (lines ++ (Node.walkAll program.statements).filterMap
        (storedLine? target)) := by
  obtain ⟨hstatements, hwrites⟩ := program_of_fault hok
  have hstored := storage_sequence_of (fun node _ => storage_statement node) hstatements
  have hstorage : ∀ writes : List Write,
      (writes.filter Write.isStorage).filter (fun write => write.target = target) =
        writes.filter fun write => write.target = target := by
    intro writes
    rw [List.filter_filter]
    refine List.filter_congr fun write _ => ?_
    by_cases hwrite : write.target = target
    · simp [Write.isStorage, hwrite, htarget]
    · simp [hwrite]
  have hprologue : prologue.target ≠ target := Ne.symm htarget
  rw [Sections.get_apply, hlines, hwrites, List.filter_cons_of_neg (by simpa using hprologue),
    ← hstorage, hstored, filter_flatMap_storedWrites htarget]
  exact addAll_present target lines (empty_not_mem_stored target _)

end Generate

/-! ## Several programs -/

namespace Session

open Generate

/-- Generates code for programs, one after another; tells of each whether that failed. -/
def generateEach (session : Session) : List Program → List (Option Fault) × Session
  | [] => ([], session)
  | program :: rest =>
      let (fault, session) := session.generateFor program
      let (faults, session) := session.generateEach rest
      (fault :: faults, session)

theorem get_generateEach {target : SectionName} (htarget : target ≠ .text) {session : Session}
    {programs : List Program} (hok : ∀ fault ∈ (session.generateEach programs).1, fault = none)
    {lines : List String} (hlines : session.sections.get target = present noLabel lines) :
    (session.generateEach programs).2.sections.get target =
      present noLabel (lines ++ (programs.flatMap fun program =>
        Node.walkAll program.statements).filterMap (storedLine? target)) := by
  induction programs generalizing session lines with
  | nil => simpa [generateEach] using hlines
  | cons program rest ih =>
      have hprogram : (Generate.program session.draws program).fault = none :=
        hok _ (List.mem_cons_self ..)
      have hrest : ∀ fault ∈ ((session.generateFor program).2.generateEach rest).1, fault = none :=
        fun fault hfault => hok fault (List.mem_cons_of_mem _ hfault)
      have hafter := get_apply_program htarget hprogram hlines
      rw [List.flatMap_cons, List.filterMap_append, ← List.append_assoc]
      exact ih hrest hafter

end Session

/-- Whether a node is a declaration. -/
def Node.isDeclaration : Node → Bool
  | .constant _ _ _ _ _ | .variable _ _ _ _ _ | .pointer _ _ _ _ => true
  | _ => false

/-- The declarations of programs, in pre-order. -/
def declarations (programs : List Program) : List Node :=
  (programs.flatMap fun program => Node.walkAll program.statements).filter Node.isDeclaration

namespace Generate

private theorem filterMap_declarations (target : SectionName) (programs : List Program) :
    (declarations programs).filterMap (storedLine? target) =
      (programs.flatMap fun program => Node.walkAll program.statements).filterMap
        (storedLine? target) := by
  have hnode : (fun node => if node.isDeclaration then storedLine? target node else none) =
      storedLine? target := by
    funext node
    cases target <;> cases node <;> rfl
  rw [declarations, List.filterMap_filter, hnode]

end Generate

open Generate

/-- **Storage is what is declared.**  After code was generated for programs, the data section holds
one line for each constant, each variable with a value and each pointer, and the bss section one for
each variable without a value, in pre-order of all programs and under no label; a section without
such lines is empty.  Programs with the same declarations fill these sections alike, whatever their
draws and their other statements are. -/
theorem storage_generateEach {draws : Draws} {programs : List Program}
    (hok : ∀ fault ∈ (Session.generateEach { draws } programs).1, fault = none) :
    (Session.generateEach { draws } programs).2.sections.data =
        present noLabel ((declarations programs).filterMap dataLine?) ∧
      (Session.generateEach { draws } programs).2.sections.bss =
        present noLabel ((declarations programs).filterMap reserveLine?) ∧
      ∀ (draws' : Draws) (programs' : List Program),
        (∀ fault ∈ (Session.generateEach { draws := draws' } programs').1, fault = none) →
        declarations programs' = declarations programs →
          (Session.generateEach { draws := draws' } programs').2.sections.data =
              (Session.generateEach { draws } programs).2.sections.data ∧
            (Session.generateEach { draws := draws' } programs').2.sections.bss =
              (Session.generateEach { draws } programs).2.sections.bss := by
  have hsections : ∀ (draws : Draws) (programs : List Program),
      (∀ fault ∈ (Session.generateEach { draws } programs).1, fault = none) →
      (Session.generateEach { draws } programs).2.sections.data =
          present noLabel ((declarations programs).filterMap dataLine?) ∧
        (Session.generateEach { draws } programs).2.sections.bss =
          present noLabel ((declarations programs).filterMap reserveLine?) := by
    intro draws programs hok
    have hempty : ∀ target, ({ draws } : Session).sections.get target = present noLabel [] := by
      intro target
      cases target <;> rfl
    have hdata := Session.get_generateEach (by decide) hok (hempty .data)
    have hbss := Session.get_generateEach (by decide) hok (hempty .bss)
    rw [List.nil_append, ← filterMap_declarations] at hdata hbss
    exact ⟨hdata, hbss⟩
  obtain ⟨hdata, hbss⟩ := hsections draws programs hok
  refine ⟨hdata, hbss, fun draws' programs' hok' hsame => ?_⟩
  obtain ⟨hdata', hbss'⟩ := hsections draws' programs' hok'
  rw [hdata', hbss', hdata, hbss, hsame]
  exact ⟨rfl, rfl⟩

/-- Two programs, whose declarations stand inside and outside blocks. -/
def declaringPrograms : List Program :=
  [{ statements :=
      [.ifElse (.compare (.ofName (.text "a")) (.ofName (.text "b")) (.relation .equal))
          (.list
            [.pointer (.ofName (.text "p")) (.ofType .str)
                (.ofLiteral .string (.text "'hi'")) (.integer 2),
              .ifElse (.compare (.ofName (.text "a")) (.ofName (.text "b")) (.relation .smaller))
                (.list [.variable (.ofName (.text "x")) (.ofLiteral .number (.integer 8))
                  (.ofType .int) .absent (.integer 4)])
                (.list [])])
          (.list [.constant (.ofName (.text "c")) (.ofLiteral .number (.integer 1)) (.ofType .int)
            (.ofLiteral .number (.text "5")) (.integer 8)]),
        .syscall (.text "60") (.list []) (.ofName (.text "x"))]
     names := {} },
    { statements :=
      [.variable (.ofName (.text "y")) (.ofLiteral .number (.integer 2)) (.ofType .char)
          (.ofLiteral .char (.text "'k'")) (.integer 1),
        .variable (.ofName (.text "z")) (.ofLiteral .number (.integer 3)) (.ofType .int) .absent
          (.integer 2)]
      names := {} }]

theorem storage_generateEach_declaringPrograms :
    (Session.generateEach { draws := .ofList [] } declaringPrograms).2.sections.data =
        [⟨"no_label", ["\tp db 'hi', 0xA\n", "\tc dq 5\n", "\ty db 'k', 0xA\n"]⟩] ∧
      (Session.generateEach { draws := .ofList [] } declaringPrograms).2.sections.bss =
        [⟨"no_label", ["\tx resq 8\n", "\tz resq 3\n"]⟩] ∧
      (Session.generateEach { draws := .ofList [7] }
          [{ statements := declarations declaringPrograms, names := {} }]).2.sections.data =
        (Session.generateEach { draws := .ofList [] } declaringPrograms).2.sections.data := by
  obtain ⟨hdata, hbss, hsame⟩ :=
    @storage_generateEach (.ofList []) declaringPrograms (by decide +kernel)
  have hflat := hsame (.ofList [7]) [{ statements := declarations declaringPrograms, names := {} }]
    (by decide +kernel) rfl
  refine ⟨?_, ?_, hflat.1⟩
  · rw [hdata]
    decide +kernel
  · rw [hbss]
    decide +kernel

end LineCompiler
