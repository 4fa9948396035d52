import LineCompiler.Assembly.Generate
import LineCompiler.Proofs.Assembly.Success
import LineCompiler.Proofs.Program.Walk

/-!
# What a statement emits

Code generation that does not fail is described once and for all here, statement by statement: what
it writes, and how many draws it takes.

* A statement that is no conditional stores a line if it is a declaration, and writes its own lines
  to the text section under the label it stands under (`statement_plain`).
* A conditional writes its comparison, then everything that its two blocks emit, and then its two
  jumps (`statement_ifElse`).

Blocks may be nested to any depth, so what holds of all statements is proved by
`Node.blockInduction`.
-/

namespace LineCompiler

namespace Emission

@[simp] theorem write_writes (draws : Draws) (writes : List Write) :
    (write draws writes).writes = writes := rfl

@[simp] theorem write_draws (draws : Draws) (writes : List Write) :
    (write draws writes).draws = draws := rfl

/-- An emission that does not fail is one of its writes. -/
theorem eq_write_of_fault {emission : Emission} (hok : emission.fault = none) :
    emission = write emission.draws emission.writes := by
  obtain ⟨writes, draws, fault⟩ := emission
  cases hok
  rfl

theorem write_andThen {draws after : Draws} {writes more : List Write} {second : Draws → Emission}
    (hsecond : second draws = write after more) :
    (write draws writes).andThen second = write after (writes ++ more) := by
  show ({ second draws with writes := writes ++ (second draws).writes } : Emission) = _
  rw [hsecond]
  rfl

theorem andThen_of_fault {first : Emission} {second : Draws → Emission}
    (hok : (first.andThen second).fault = none) :
    first.fault = none ∧ (second first.draws).fault = none ∧
      first.andThen second =
        write (second first.draws).draws (first.writes ++ (second first.draws).writes) := by
  obtain ⟨hfirst, hsecond⟩ := (andThen_fault first second).mp hok
  refine ⟨hfirst, hsecond, ?_⟩
  rw [eq_write_of_fault hfirst]
  exact write_andThen (eq_write_of_fault hsecond)

end Emission

theorem Draws.skip_skip (draws : Draws) (first second : Nat) :
    (draws.skip first).skip second = draws.skip (first + second) := by
  simp [Draws.skip, Nat.add_assoc]

namespace Generate

open Emission (andThen_fault andThen_of_fault eq_write_of_fault ofExcept_fault write_andThen)

theorem instruction_ne_empty (text : String) : instruction text ≠ "" := by
  intro heq
  have htab : '\t' ∈ (instruction text).toList := by simp [instruction]
  rw [heq] at htab
  exact absurd htab (by simp)

/-! ## What a statement stores, writes and draws -/

/-- The text of a field; a field that is missing has none. -/
def fieldText (field : Except Fault Node) : String :=
  (field.toOption.map Node.plain).getD ""

/-- The line of a declaration with a value. -/
def valueLine (identifier type value : Node) (endMark : String) : String :=
  instruction
    (if type.isBytes then
      fieldText identifier.name ++ " db " ++ fieldText value.value ++ ", " ++ endMark
    else fieldText identifier.name ++ " dq " ++ fieldText value.value)

/-- The line that a statement stores in the data section. -/
def dataLine? : Node → Option String
  | .constant identifier _ type value _ => some (valueLine identifier type value "0")
  | .variable identifier _ type value _ =>
      if value.isAbsent then none else some (valueLine identifier type value "0xA")
  | .pointer identifier type value _ => some (valueLine identifier type value "0xA")
  | _ => none

/-- The line that a statement stores in the bss section. -/
def reserveLine? : Node → Option String
  | .variable identifier size _ value _ =>
      if value.isAbsent then
        some (instruction (fieldText identifier.name ++ " resq " ++ fieldText size.value))
      else none
  | _ => none

/-- The writes by which a statement stores its lines. -/
def storedWrites (node : Node) : List Write :=
  (dataLine? node).toList.map (fun line => { target := .data, code := [line] }) ++
    (reserveLine? node).toList.map (fun line => { target := .bss, code := [line] })

/-- How many draws a statement takes itself. -/
def ownDraws : Node → Nat
  | .pointer _ _ _ _ => 8
  | .syscall _ _ _ => 1
  | .ifElse _ _ _ => 10
  | _ => 0

/-- The number of a label that the draw at a position chooses. -/
def labelNumber (stream : Nat → Int) (position : Nat) : Nat :=
  999 + (stream position % 9000).toNat

/-- The labels of the two blocks of a conditional before which `position` draws were taken. -/
def thenLabelAt (stream : Nat → Int) (position : Nat) : String :=
  "if_block_" ++ Nat.repr (labelNumber stream (position + 8))

@[inherit_doc thenLabelAt]
def elseLabelAt (stream : Nat → Int) (position : Nat) : String :=
  "else_block_" ++ Nat.repr (labelNumber stream (position + 9))

/-- The instructions of an operation. -/
def operationLines (kind : Arithmetic) (left right result : Node) : Except Fault (List String) := do
  let (code, register) ← operationCode kind left right
  let target ← result.target
  let name ← target.name
  return code ++ ["mov " ++ contentOf name ++ ", " ++ register]

/-- The instructions of a system call: its number, its arguments in their registers, the call, and
the store of what it returns. -/
def callLines (names : Names) (number arguments error : Node) : Except Fault (List String) := do
  let error ← error.name
  let items ← arguments.items
  let texts ← items.mapM (argumentText names)
  return ("mov rax, " ++ numberText number) ::
    (List.zipWith (fun register text => "mov " ++ register ++ ", " ++ text)
        argumentRegisters texts ++
      ["syscall", "mov " ++ contentOf error ++ ", rax"])

/-- The instructions of a conditional: two that compare, and two jumps. -/
def conditionLines (stream : Nat → Int) (position : Nat) (condition : Node) :
    Except Fault (List String) := do
  let compared ← compareCode condition
  let relation ← condition.comparedBy
  return compared ++
    [jump relation ++ " " ++ thenLabelAt stream position,
      jump (opposite relation) ++ " " ++ elseLabelAt stream position]

/-- The instructions that a statement has under the label it stands under, without those of its
blocks. -/
def ownCode (names : Names) (stream : Nat → Int) (position : Nat) :
    Node → Except Fault (List String)
  | .arithmetic kind left right result => operationLines kind left right result
  | .syscall number arguments error => callLines names number arguments error
  | .ifElse condition _ _ => conditionLines stream position condition
  | _ => .ok []

/-- The lines that a statement has under its label. -/
def ownLines (names : Names) (stream : Nat → Int) (position : Nat) (node : Node) : List String :=
  ((ownCode names stream position node).toOption.getD []).map instruction

/-! ## Statements without blocks -/

theorem dataLine_of_isOk {identifier type value : Node} {endMark : String}
    (hok : (dataLine identifier type value endMark).isOk = true) :
    dataLine identifier type value endMark =
      .ok [{ target := .data, code := [valueLine identifier type value endMark] }] := by
  revert hok
  unfold dataLine valueLine
  cases identifier.name with
  | error fault => exact fun hok => nomatch hok
  | ok name =>
      cases value.value with
      | error fault => exact fun hok => nomatch hok
      | ok value => exact fun _ => rfl

private theorem reserveLine_of_isOk {identifier size : Node}
    (hok : (reserveLine identifier size).isOk = true) :
    reserveLine identifier size =
      .ok [{ target := .bss,
             code :=
               [instruction (fieldText identifier.name ++ " resq " ++
                 fieldText size.value)] }] := by
  revert hok
  unfold reserveLine
  cases identifier.name with
  | error fault => exact fun hok => nomatch hok
  | ok name =>
      cases size.value with
      | error fault => exact fun hok => nomatch hok
      | ok value => exact fun _ => rfl

private theorem operation_eq (label : String) (kind : Arithmetic) (left right result : Node) :
    operation label kind left right result =
      (operationLines kind left right result).map fun code =>
        [inText label (code.map instruction)] := by
  unfold operation operationLines
  cases operationCode kind left right with
  | error fault => rfl
  | ok found =>
      cases result.target with
      | error fault => rfl
      | ok target =>
          simp only [bind, Except.bind]
          cases target.name with
          | error fault => rfl
          | ok name => rfl

private theorem loadArguments_of_fault {names : Names} {label : String} {draws : Draws}
    {registers : List String} {arguments : List Node}
    (hok : (loadArguments names label draws registers arguments).fault = none) :
    ∃ texts, arguments.mapM (argumentText names) = .ok texts ∧
      loadArguments names label draws registers arguments =
        .write draws ((List.zipWith (fun register text => "mov " ++ register ++ ", " ++ text)
          registers texts).map fun line => inText label [instruction line]) := by
  induction arguments generalizing registers with
  | nil =>
      refine ⟨[], rfl, ?_⟩
      cases registers <;> rfl
  | cons argument arguments ih =>
      cases registers with
      | nil => cases hok
      | cons register registers =>
          cases htext : argumentText names argument with
          | error fault =>
              simp only [loadArguments, htext] at hok
              cases hok
          | ok text =>
              simp only [loadArguments, htext] at hok ⊢
              obtain ⟨texts, htexts, hload⟩ := ih ((andThen_fault _ _).mp hok).2
              refine ⟨text :: texts, ?_, write_andThen hload⟩
              rw [List.mapM_cons, htext, htexts]
              rfl

theorem syscall_of_fault {names : Names} {label : String} {number arguments error : Node}
    {draws : Draws} (hok : (syscall names label number arguments error draws).fault = none) :
    ∃ code, callLines names number arguments error = .ok code ∧
      syscall names label number arguments error draws =
        .write (draws.skip 1) (code.map fun line => inText label [instruction line]) := by
  unfold syscall at hok ⊢
  unfold callLines
  cases herror : error.name with
  | error fault =>
      rw [herror] at hok
      exact nomatch hok
  | ok error =>
      simp only [herror] at hok ⊢
      have hload := ((andThen_fault _ _).mp ((andThen_fault _ _).mp hok).1).2
      cases hitems : arguments.items with
      | error fault =>
          rw [loadItems, hitems] at hload
          exact nomatch hload
      | ok items =>
          simp only [loadItems, hitems] at hload ⊢
          obtain ⟨texts, htexts, heq⟩ := loadArguments_of_fault hload
          simp only [bind, Except.bind, htexts]
          refine ⟨_, rfl, ?_⟩
          rw [write_andThen heq, write_andThen rfl, List.map_cons, List.map_append]
          rfl

theorem operationLines_ne_nil {kind : Arithmetic} {left right result : Node} {code : List String}
    (hcode : operationLines kind left right result = .ok code) : code ≠ [] := by
  obtain ⟨⟨front, register⟩, -, hcode⟩ := exists_of_bind_eq_ok hcode
  obtain ⟨target, -, hcode⟩ := exists_of_bind_eq_ok hcode
  obtain ⟨name, -, hcode⟩ := exists_of_bind_eq_ok hcode
  cases hcode
  simp

/-- **What a statement without blocks emits**: the line it stores and, in pieces, its own code. -/
theorem statement_plain {names : Names} {label : String} {draws : Draws} {node : Node}
    (hplain : node.isConditional = false)
    (hok : (statement names label draws node).fault = none) :
    ∃ pieces : List (List String), [] ∉ pieces ∧
      (∀ stream position, ownCode names stream position node = .ok pieces.flatten) ∧
      statement names label draws node =
        .write (draws.skip (ownDraws node)) (storedWrites node ++
          pieces.map fun piece => inText label (piece.map instruction)) := by
  cases node with
  | ifElse condition thenBlock elseBlock => cases hplain
  | constant identifier size type value line =>
      rw [statement] at hok ⊢
      rw [dataLine_of_isOk ((ofExcept_fault _ _).mp hok)]
      exact ⟨[], List.not_mem_nil, fun _ _ => rfl, rfl⟩
  | «variable» identifier size type value line =>
      refine ⟨[], List.not_mem_nil, fun _ _ => rfl, ?_⟩
      rw [statement] at hok ⊢
      have hisOk := (ofExcept_fault _ _).mp hok
      by_cases habsent : value.isAbsent = true
      · rw [if_pos habsent] at hisOk ⊢
        rw [reserveLine_of_isOk hisOk]
        simp only [storedWrites, dataLine?, reserveLine?, habsent]
        rfl
      · rw [if_neg habsent] at hisOk ⊢
        rw [dataLine_of_isOk hisOk]
        simp only [storedWrites, dataLine?, reserveLine?, habsent]
        rfl
  | pointer identifier type value line =>
      refine ⟨[], List.not_mem_nil, fun _ _ => rfl, ?_⟩
      rw [statement] at hok ⊢
      cases hname : identifier.name with
      | error fault =>
          rw [hname] at hok
          cases hok
      | ok name =>
          simp only [hname] at hok ⊢
          rw [dataLine_of_isOk ((ofExcept_fault _ _).mp hok)]
          rfl
  | arithmetic kind left right result =>
      rw [statement, operation_eq] at hok ⊢
      cases hcode : operationLines kind left right result with
      | error fault =>
          rw [hcode] at hok
          cases hok
      | ok code =>
          refine ⟨[code], ?_, fun _ _ => ?_, rfl⟩
          · simpa using (operationLines_ne_nil hcode).symm
          · rw [ownCode, hcode, List.flatten_cons, List.flatten_nil, List.append_nil]
  | syscall number arguments error =>
      rw [statement] at hok ⊢
      obtain ⟨code, hcode, heq⟩ := syscall_of_fault hok
      refine ⟨code.map fun line => [line], by simp, fun _ _ => ?_, ?_⟩
      · rw [ownCode, hcode, ← List.flatMap_def, List.flatMap_singleton']
      · rw [heq, List.map_map]
        rfl
  | _ => exact ⟨[], List.not_mem_nil, fun _ _ => rfl, rfl⟩

/-! ## Sequences of statements -/

/-- The code of statements that stand under one label, each with the same lines after it. -/
def sequence (names : Names) (label : String) (ending : List String) (draws : Draws) :
    List Node → Emission
  | [] => .write draws []
  | node :: rest =>
      ((statement names label draws node).andThen fun draws =>
        .write draws (ending.map fun line => inText label [line])).andThen fun draws =>
        sequence names label ending draws rest

/-- The line of a return. -/
def returnLine : String := instruction "ret"

private theorem statements_eq_sequence (names : Names) (draws : Draws) (nodes : List Node) :
    statements names draws nodes = sequence names mainLabel [] draws nodes := by
  induction nodes generalizing draws with
  | nil => rfl
  | cons node rest ih =>
      have hnothing : ∀ emission : Emission,
          (emission.andThen fun draws =>
            .write draws ([].map fun line => inText mainLabel [line])) = emission := by
        intro emission
        cases hfault : emission.fault with
        | some fault => simp only [Emission.andThen, hfault]
        | none =>
            rw [eq_write_of_fault hfault, write_andThen rfl]
            simp
      rw [statements, sequence, hnothing]
      exact congrArg _ (funext ih)

private theorem blockItems_eq_sequence (names : Names) (label : String) (draws : Draws)
    (nodes : List Node) :
    blockItems names label draws nodes = sequence names label [returnLine] draws nodes := by
  induction nodes generalizing draws with
  | nil => rfl
  | cons node rest ih =>
      rw [blockItems, sequence]
      exact congrArg _ (funext ih)

private theorem sequence_texts {nodes : List Node}
    (hnodes : ∀ node ∈ nodes, ∃ content, node = .text content) (names : Names) (label : String)
    (draws : Draws) :
    sequence names label [returnLine] draws nodes =
      .write draws (List.replicate nodes.length (leave label)) := by
  induction nodes with
  | nil => rfl
  | cons node rest ih =>
      obtain ⟨content, rfl⟩ := hnodes node (List.mem_cons_self ..)
      have hrest := ih fun other hother => hnodes other (List.mem_cons_of_mem _ hother)
      have hstatement : statement names label draws (.text content) = .write draws [] := rfl
      rw [sequence, hstatement, write_andThen rfl]
      exact write_andThen hrest

theorem sequence_cons {names : Names} {label : String} {ending : List String} {draws : Draws}
    {node : Node} {rest : List Node}
    (hok : (sequence names label ending draws (node :: rest)).fault = none) :
    (statement names label draws node).fault = none ∧
      (sequence names label ending (statement names label draws node).draws rest).fault = none ∧
      sequence names label ending draws (node :: rest) =
        .write (sequence names label ending (statement names label draws node).draws rest).draws
          ((statement names label draws node).writes ++
            ending.map (fun line => inText label [line]) ++
            (sequence names label ending (statement names label draws node).draws
              rest).writes) := by
  obtain ⟨hfirst, hrest, heq⟩ := andThen_of_fault hok
  obtain ⟨hnode, -, hfirstEq⟩ := andThen_of_fault hfirst
  rw [hfirstEq] at hrest heq
  refine ⟨hnode, hrest, ?_⟩
  rw [sequence, hfirstEq]
  exact heq

/-- A block whose node is not a list has nothing but returns. -/
theorem block_other {node : Node} (hother : ∀ items, node = .list items → False) (names : Names)
    (label : String) (draws : Draws) :
    block names label draws node =
      .ofExcept draws (node.items.map fun items => List.replicate items.length (leave label)) := by
  rw [block]
  exact hother

/-- A block whose code can be generated is the sequence of its statements. -/
theorem block_eq_sequence {names : Names} {label : String} {draws : Draws} {node : Node}
    (hok : (block names label draws node).fault = none) :
    block names label draws node = sequence names label [returnLine] draws node.inBlock := by
  by_cases hlist : ∃ items, node = .list items
  · obtain ⟨items, rfl⟩ := hlist
    rw [block]
    exact blockItems_eq_sequence names label draws items
  · have hother : ∀ items, node = .list items → False := fun items heq => hlist ⟨items, heq⟩
    have htexts : ∀ item ∈ node.inBlock, ∃ content, item = .text content := fun item =>
      Node.text_of_mem_inBlock hother
    rw [block_other hother] at hok ⊢
    rw [sequence_texts htexts]
    cases hitems : node.items with
    | error fault =>
        rw [hitems] at hok
        exact nomatch hok
    | ok items =>
        rw [Node.inBlock, hitems]
        rfl

/-- **What a conditional emits**: its comparison, its two blocks, and its jumps. -/
theorem statement_ifElse {names : Names} {label : String} {draws : Draws}
    {condition thenBlock elseBlock : Node}
    (hok : (statement names label draws (.ifElse condition thenBlock elseBlock)).fault = none) :
    ∃ compared relation thenPart elsePart,
      compareCode condition = .ok compared ∧ condition.comparedBy = .ok relation ∧
      thenPart = sequence names (thenLabelAt draws.stream draws.taken) [returnLine]
        (draws.skip 10) thenBlock.inBlock ∧ thenPart.fault = none ∧
      elsePart = sequence names (elseLabelAt draws.stream draws.taken) [returnLine]
        thenPart.draws elseBlock.inBlock ∧ elsePart.fault = none ∧
      statement names label draws (.ifElse condition thenBlock elseBlock) =
        .write elsePart.draws
          (inText label (compared.map instruction) :: (thenPart.writes ++ elsePart.writes ++
            [inText label [instruction
                (jump relation ++ " " ++ thenLabelAt draws.stream draws.taken)],
              inText label [instruction
                (jump (opposite relation) ++ " " ++ elseLabelAt draws.stream draws.taken)]])) := by
  obtain ⟨compared, hcompared⟩ : ∃ compared, compareCode condition = .ok compared := by
    cases hcompared : compareCode condition with
    | ok compared => exact ⟨compared, rfl⟩
    | error fault =>
        rw [statement, hcompared] at hok
        cases hok
  have hstatement : statement names label draws (.ifElse condition thenBlock elseBlock) =
      (Emission.write (draws.skip 8) [inText label (compared.map instruction)]).andThen fun _ =>
        ((block names (thenLabelAt draws.stream draws.taken) (draws.skip 10) thenBlock).andThen
          fun draws' => block names (elseLabelAt draws.stream draws.taken) draws' elseBlock).andThen
          fun draws' => .ofExcept draws' (jumps label (thenLabelAt draws.stream draws.taken)
            (elseLabelAt draws.stream draws.taken) condition) := by
    rw [statement, hcompared]
    rfl
  rw [hstatement] at hok
  obtain ⟨hblocks, hjumps⟩ := (andThen_fault _ _).mp ((andThen_fault _ _).mp hok).2
  obtain ⟨hthen, helse⟩ := (andThen_fault _ _).mp hblocks
  cases hrelation : condition.comparedBy with
  | error fault =>
      rw [jumps, hrelation] at hjumps
      cases hjumps
  | ok relation =>
      have hthenEq := block_eq_sequence hthen
      rw [hthenEq] at hthen helse
      have helseEq := block_eq_sequence helse
      rw [helseEq] at helse
      refine ⟨compared, relation, _, _, hcompared, rfl, rfl, hthen, rfl, helse, ?_⟩
      rw [hstatement]
      refine write_andThen ?_
      have hjumpsEq : ∀ after, Emission.ofExcept after (jumps label
          (thenLabelAt draws.stream draws.taken) (elseLabelAt draws.stream draws.taken) condition) =
          .write after
            [inText label [instruction
                (jump relation ++ " " ++ thenLabelAt draws.stream draws.taken)],
              inText label [instruction
                (jump (opposite relation) ++ " " ++ elseLabelAt draws.stream draws.taken)]] := by
        intro after
        rw [jumps, hrelation]
        rfl
      rw [hthenEq, eq_write_of_fault hthen,
        write_andThen (helseEq.trans (eq_write_of_fault helse)), write_andThen (hjumpsEq _)]
      rfl

/-- What a program emits: the code that every program starts with, and that of its statements. -/
theorem program_of_fault {draws : Draws} {program : Program}
    (hok : (Generate.program draws program).fault = none) :
    (sequence program.names mainLabel [] draws program.statements).fault = none ∧
      (Generate.program draws program).writes =
        prologue :: (sequence program.names mainLabel [] draws program.statements).writes := by
  obtain ⟨-, hstatements, heq⟩ := andThen_of_fault hok
  rw [statements_eq_sequence] at hstatements heq
  refine ⟨hstatements, ?_⟩
  rw [Generate.program, heq]
  rfl

theorem compareCode_ne_nil {condition : Node} {compared : List String}
    (hcompared : compareCode condition = .ok compared) : compared ≠ [] := by
  obtain ⟨left, -, hcompared⟩ := exists_of_bind_eq_ok hcompared
  obtain ⟨right, -, hcompared⟩ := exists_of_bind_eq_ok hcompared
  split at hcompared
  · cases hcompared
    exact List.cons_ne_nil _ _
  · cases hcompared
    exact List.cons_ne_nil _ _
  · obtain ⟨value, -, hcompared⟩ := exists_of_bind_eq_ok hcompared
    obtain ⟨name, -, hcompared⟩ := exists_of_bind_eq_ok hcompared
    cases hcompared
    exact List.cons_ne_nil _ _

/-! ## Draws -/

/-- How many draws statements take, without those in their blocks. -/
def drawsOf : List Node → Nat
  | [] => 0
  | node :: rest => ownDraws node + drawsOf rest

@[simp] theorem drawsOf_append (first second : List Node) :
    drawsOf (first ++ second) = drawsOf first + drawsOf second := by
  induction first with
  | nil => rw [List.nil_append, drawsOf, Nat.zero_add]
  | cons node rest ih => rw [List.cons_append, drawsOf, drawsOf, ih, Nat.add_assoc]

theorem sequence_draws_of {nodes : List Node}
    (hnodes : ∀ node ∈ nodes, ∀ names label draws, (statement names label draws node).fault = none →
      (statement names label draws node).draws = draws.skip (drawsOf node.walk))
    {names : Names} {label : String} {ending : List String} {draws : Draws}
    (hok : (sequence names label ending draws nodes).fault = none) :
    (sequence names label ending draws nodes).draws =
      draws.skip (drawsOf (Node.walkAll nodes)) := by
  induction nodes generalizing draws with
  | nil => rfl
  | cons node rest ih =>
      obtain ⟨hnode, hrest, heq⟩ := sequence_cons hok
      have hdraws := hnodes node (List.mem_cons_self ..) names label draws hnode
      rw [heq, Emission.write_draws, ih (fun other hother => hnodes other
        (List.mem_cons_of_mem _ hother)) hrest, hdraws, Draws.skip_skip, Node.walkAll,
        drawsOf_append]

/-- **A statement takes the draws of all statements in it.** -/
theorem statement_draws (node : Node) :
    ∀ names label draws, (statement names label draws node).fault = none →
      (statement names label draws node).draws = draws.skip (drawsOf node.walk) := by
  induction node using Node.blockInduction with
  | plain node hplain =>
      intro names label draws hok
      obtain ⟨pieces, -, -, heq⟩ := statement_plain hplain hok
      rw [heq, Node.walk_of_plain hplain]
      rfl
  | conditional condition thenBlock elseBlock hthen helse =>
      intro names label draws hok
      obtain ⟨_, _, thenPart, elsePart, -, -, rfl, hthenOk, rfl, helseOk, heq⟩ :=
        statement_ifElse hok
      have hthenDraws := sequence_draws_of hthen hthenOk
      have helseDraws := sequence_draws_of helse helseOk
      rw [heq, Emission.write_draws, helseDraws, hthenDraws, Draws.skip_skip, Draws.skip_skip,
        Node.walk_ifElse, drawsOf, drawsOf_append]
      rfl

theorem sequence_draws {names : Names} {label : String} {ending : List String} {draws : Draws}
    {nodes : List Node} (hok : (sequence names label ending draws nodes).fault = none) :
    (sequence names label ending draws nodes).draws = draws.skip (drawsOf (Node.walkAll nodes)) :=
  sequence_draws_of (fun node _ => statement_draws node) hok

end Generate

end LineCompiler
