import LineCompiler.Assembly.Generate
import LineCompiler.Proofs.Program.Formed

/-!
# For which programs code is generated

Code is generated for every declaration and every system call that is read from a scanned line,
whatever the names, the label and the draws.  The generation can fail only at a conditional, and
there only at its comparison: two operands are compared if at least one of them is a name and the
other one is a name or a literal.  So code is generated for a program exactly if all conditionals
that have a place in it compare such operands (`statements_fault_iff`).
-/

namespace LineCompiler

namespace Emission

theorem andThen_fault (first : Emission) (second : Draws → Emission) :
    (first.andThen second).fault = none ↔
      first.fault = none ∧ (second first.draws).fault = none := by
  unfold andThen
  cases hfault : first.fault with
  | none => simp
  | some fault => simp [hfault]

theorem ofExcept_fault (draws : Draws) (writes : Except Fault (List Write)) :
    (ofExcept draws writes).fault = none ↔ writes.isOk = true := by
  cases writes with
  | ok writes => exact ⟨fun _ => rfl, fun _ => rfl⟩
  | error fault => exact ⟨nofun, nofun⟩

end Emission

namespace Generate

open Reader (IsArgument isOk_map)
open Emission (andThen_fault ofExcept_fault)

/-! ## Statements without blocks -/

/-- Code is generated for a node, under any label and with any draws. -/
def Generates (node : Node) : Prop :=
  ∀ names label draws, (statement names label draws node).fault = none

private theorem argumentText_eq_ok {node : Node} (hnode : IsArgument node) (names : Names) :
    ∃ text, argumentText names node = .ok text := by
  rcases hnode with ⟨value, rfl⟩ | ⟨name, rfl⟩
  · exact ⟨_, rfl⟩
  · exact ⟨_, rfl⟩

private theorem loadArguments_fault {nodes : List Node} (hnodes : ∀ node ∈ nodes, IsArgument node)
    {registers : List String} (hlength : nodes.length ≤ registers.length) (names : Names)
    (label : String) (draws : Draws) :
    (loadArguments names label draws registers nodes).fault = none := by
  induction nodes generalizing registers draws with
  | nil => cases registers <;> rfl
  | cons node nodes ih =>
      cases registers with
      | nil => exact absurd hlength (by simp)
      | cons register registers =>
          obtain ⟨text, htext⟩ := argumentText_eq_ok (hnodes node (List.mem_cons_self ..)) names
          simp only [loadArguments, htext]
          refine (andThen_fault _ _).mpr ⟨rfl, ?_⟩
          exact ih (fun other hother => hnodes other (List.mem_cons_of_mem _ hother))
            (Nat.le_of_succ_le_succ hlength) _

theorem generates_syscall (number : Node) {arguments : List Node} (error : Atom)
    (hlength : arguments.length ≤ Syscall.maxArguments)
    (harguments : ∀ node ∈ arguments, IsArgument node) :
    Generates (.syscall number (.list arguments) (.ofName error)) := by
  intro names label draws
  have hregisters : arguments.length ≤ argumentRegisters.length := hlength
  refine (andThen_fault _ _).mpr ⟨(andThen_fault _ _).mpr ⟨rfl, ?_⟩, rfl⟩
  exact loadArguments_fault harguments hregisters names label _

/-- Code is generated for the statement of a scanned line. -/
theorem generates_of_effect {line : TokenLine} {node : Node}
    (hsound : Scan.Sound line.line line.tokens)
    (heffect : Reader.effect line = .ok (.statement node)) : Generates node := by
  obtain ⟨opener, hopener⟩ := Reader.opener?_of_effect heffect rfl
  rw [Reader.effect_of_opener? hopener] at heffect
  cases opener with
  | const =>
      obtain ⟨found, hfound, heq⟩ := exists_of_map_eq_ok heffect
      obtain ⟨name, size, type, value, -, rfl⟩ := Reader.constant_eq_ok hfound
      cases heq
      exact fun _ _ _ => rfl
  | var =>
      obtain ⟨found, hfound, heq⟩ := exists_of_map_eq_ok heffect
      obtain ⟨name, size, type, -, rfl⟩ := Reader.variableNode_eq_ok hfound
      cases heq
      exact fun _ _ _ => rfl
  | ptr =>
      obtain ⟨found, hfound, heq⟩ := exists_of_map_eq_ok heffect
      obtain ⟨name, type, value, -, rfl⟩ := Reader.pointer_eq_ok hfound
      cases heq
      exact fun _ _ _ => rfl
  | syscall =>
      -- The scan has made sure that there are registers for all arguments.
      obtain ⟨rest, elements, helements, htokens⟩ := Reader.elements_of_opener? hsound hopener
      obtain ⟨number, arguments, error, hsyscall, hlength, harguments⟩ :=
        Reader.syscall_of_elements helements
      rw [Reader.openerEffect, htokens, Opener.keyword, hsyscall] at heffect
      cases heffect
      exact generates_syscall number error hlength harguments
  | cond =>
      obtain ⟨found, -, heq⟩ := exists_of_map_eq_ok heffect
      cases heq

/-! ## Comparisons -/

end Generate

/-- What an operand of a comparison can be. -/
inductive OperandSort where
  | name | literal | other
  deriving DecidableEq

/-- What an operand of the given kind is. -/
def OperandSort.ofKind : TokenKind → OperandSort
  | .identifier => .name
  | .number | .float => .literal
  | _ => .other

/-- Whether code can compare two operands. -/
def OperandSort.comparable : OperandSort → OperandSort → Bool
  | .name, .name | .name, .literal | .literal, .name => true
  | _, _ => false

/-- Whether code can compare the operands of the condition on a line. -/
def TokenLine.isComparable (line : TokenLine) : Bool :=
  match line.tokens[2]?, line.tokens[4]? with
  | some (Token.of left _), some (Token.of right _) =>
      (OperandSort.ofKind left).comparable (OperandSort.ofKind right)
  | _, _ => false

namespace Generate

open Reader (IsArgument isOk_map)
open Emission (andThen_fault ofExcept_fault)

/-- The node of an operand is what its sort says. -/
theorem operand_cases (kind : TokenKind) (value : Atom) :
    OperandSort.ofKind kind = .name ∧ Reader.operand kind value = .ofName value ∨
      (OperandSort.ofKind kind = .literal ∧
        ∃ literal, Reader.operand kind value = .ofLiteral literal value) ∨
      OperandSort.ofKind kind = .other ∧ Reader.operand kind value = .bare value := by
  cases kind with
  | identifier => exact Or.inl ⟨rfl, rfl⟩
  | number | float => exact Or.inr (Or.inl ⟨rfl, _, rfl⟩)
  | _ => exact Or.inr (Or.inr ⟨rfl, rfl⟩)

private theorem compareCode_isOk (left right : TokenKind) (leftValue rightValue : Atom)
    (relation : Node) :
    (compareCode (.compare (Reader.operand left leftValue) (Reader.operand right rightValue)
        relation)).isOk =
      (OperandSort.ofKind left).comparable (OperandSort.ofKind right) := by
  rcases operand_cases left leftValue with ⟨hl, hleft⟩ | ⟨hl, _, hleft⟩ | ⟨hl, hleft⟩ <;>
    rcases operand_cases right rightValue with ⟨hr, hright⟩ | ⟨hr, _, hright⟩ | ⟨hr, hright⟩ <;>
      rw [hl, hr, hleft, hright] <;> rfl

theorem getElem?_of_entryAt {tokens : List Token} {index : Nat} {kind : TokenKind} {value : Atom}
    (hentry : Token.entryAt tokens index = .ok (kind, value)) :
    tokens[index]? = some (.of kind value) := by
  have hitem : Text.itemAt? tokens index = tokens[index]? := by
    rw [Text.itemAt?, if_neg (by omega), Int.toNat_natCast]
  rw [Token.entryAt, Token.tokenAt, hitem] at hentry
  cases htoken : tokens[index]? with
  | none =>
      rw [htoken] at hentry
      cases hentry
  | some token =>
      rw [htoken] at hentry
      cases token with
      | blank => cases hentry
      | of other found =>
          cases hentry
          rfl

/-- The condition that is read from a line compares by a relation, and code can be generated for it
exactly if its operands are comparable. -/
theorem condition_of_effect {line : TokenLine} {condition : Node}
    (heffect : Reader.effect line = .ok (.conditional condition)) :
    (compareCode condition).isOk = line.isComparable ∧ condition.comparedBy.isOk = true := by
  rw [Reader.effect_of_opener? (Reader.opener?_of_conditional heffect)] at heffect
  obtain ⟨found, hcondition, heq⟩ := exists_of_map_eq_ok heffect
  cases heq
  obtain ⟨⟨left, leftValue⟩, hleft, hcondition⟩ := exists_of_bind_eq_ok hcondition
  obtain ⟨⟨right, rightValue⟩, hright, hcondition⟩ := exists_of_bind_eq_ok hcondition
  obtain ⟨spelling, -, hcondition⟩ := exists_of_bind_eq_ok hcondition
  obtain ⟨relation, -, hcondition⟩ := exists_of_bind_eq_ok hcondition
  cases hcondition
  refine ⟨?_, rfl⟩
  rw [TokenLine.isComparable, getElem?_of_entryAt hleft, getElem?_of_entryAt hright]
  exact compareCode_isOk left right leftValue rightValue _

/-! ## Programs -/

theorem blockItems_fault {nodes : List Node} (hnodes : ∀ node ∈ nodes, Generates node)
    (names : Names) (label : String) (draws : Draws) :
    (blockItems names label draws nodes).fault = none := by
  induction nodes generalizing draws with
  | nil => rfl
  | cons node nodes ih =>
      have hnode := hnodes node (List.mem_cons_self ..)
      rw [blockItems]
      refine (andThen_fault _ _).mpr ⟨(andThen_fault _ _).mpr ⟨hnode names label draws, rfl⟩, ?_⟩
      exact ih (fun other hother => hnodes other (List.mem_cons_of_mem _ hother)) _

private theorem compareCode_of_fault {names : Names} {label : String} {draws : Draws}
    {test thenBlock elseBlock : Node}
    (hfault : (statement names label draws (.ifElse test thenBlock elseBlock)).fault = none) :
    (compareCode test).isOk = true := by
  rw [statement] at hfault
  have hcompare := (ofExcept_fault _ _).mp ((andThen_fault _ _).mp hfault).1
  rwa [isOk_map] at hcompare

/-- Whether code is generated for a statement does not depend on the label and the draws: its
comparison decides, if it has one. -/
theorem statement_fault_iff {node : Node}
    (hformed : node.Formed Generates fun test => test.comparedBy.isOk = true) (names : Names)
    (label : String) (draws : Draws) :
    (statement names label draws node).fault = none ↔
      ∀ test thenBlock elseBlock, node = .ifElse test thenBlock elseBlock →
        (compareCode test).isOk = true := by
  constructor
  · rintro hfault test thenBlock elseBlock rfl
    exact compareCode_of_fault hfault
  · intro hcompare
    cases hformed with
    | plain hnode => exact hnode names label draws
    | absent => rfl
    | conditional htest hthen helse =>
        have htrue := hcompare _ _ _ rfl
        rw [statement]
        refine (andThen_fault _ _).mpr ⟨(ofExcept_fault _ _).mpr ?_, ?_⟩
        · rwa [isOk_map]
        · refine (andThen_fault _ _).mpr ⟨(andThen_fault _ _).mpr ⟨?_, ?_⟩,
            (ofExcept_fault _ _).mpr ?_⟩
          · exact blockItems_fault hthen names _ _
          · exact blockItems_fault helse names _ _
          · rwa [jumps, isOk_map]

/-- **Code is generated for a program exactly if its conditionals compare comparable operands.** -/
theorem statements_fault_iff {nodes : List Node}
    (hformed : ∀ node ∈ nodes, node.Formed Generates fun test => test.comparedBy.isOk = true)
    (names : Names) (draws : Draws) :
    (statements names draws nodes).fault = none ↔
      ∀ test thenBlock elseBlock, .ifElse test thenBlock elseBlock ∈ nodes →
        (compareCode test).isOk = true := by
  induction nodes generalizing draws with
  | nil => simp [statements, Emission.write]
  | cons node nodes ih =>
      have hnode := statement_fault_iff (hformed node (List.mem_cons_self ..)) names mainLabel draws
      have hnodes := ih fun other hother => hformed other (List.mem_cons_of_mem _ hother)
      rw [statements, andThen_fault, hnode, hnodes]
      constructor
      · rintro ⟨hfirst, hothers⟩ test thenBlock elseBlock hmem
        rcases List.mem_cons.mp hmem with heq | hmem
        · exact hfirst test thenBlock elseBlock heq.symm
        · exact hothers test thenBlock elseBlock hmem
      · intro hall
        refine ⟨fun test thenBlock elseBlock heq => ?_, fun test thenBlock elseBlock hmem => ?_⟩
        · exact hall test thenBlock elseBlock (List.mem_cons.mpr (Or.inl heq.symm))
        · exact hall test thenBlock elseBlock (List.mem_cons_of_mem _ hmem)

end Generate

end LineCompiler
