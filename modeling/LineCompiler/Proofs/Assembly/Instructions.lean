import LineCompiler.Proofs.Assembly.Statements

/-!
# Operations of instructions

The operation of an instruction is the word before its first space.  The instructions of a statement
go straight on to the next one, but for the two jumps of a conditional, which name the labels of its
blocks (`ownCode_cases`).
-/

namespace LineCompiler

namespace Generate

/-- The operation of an instruction. -/
def mnemonic (code : String) : String :=
  String.ofList (code.toList.takeWhile (· ≠ ' '))

/-- The operations of a statement after which the next instruction follows. -/
def straightWords : List String :=
  ["mov", "add", "sub", "imul", "xor", "idiv", "cmp", "syscall"]

theorem mnemonic_append {word : String} (hword : ' ' ∉ word.toList) (rest : String) :
    mnemonic (word ++ " " ++ rest) = word := by
  have hall : ∀ c ∈ word.toList, decide (c ≠ ' ') = true := by
    intro c hc
    have hne : c ≠ ' ' := fun heq => hword (heq ▸ hc)
    simpa using hne
  rw [mnemonic, String.toList_append, String.toList_append, List.append_assoc,
    List.takeWhile_append_of_pos hall]
  simp

private theorem straight_operationLines {kind : Arithmetic} {left right result : Node}
    {code : List String} (hcode : operationLines kind left right result = .ok code) :
    ∀ line ∈ code, mnemonic line ∈ straightWords := by
  obtain ⟨⟨front, register⟩, hfront, hcode⟩ := exists_of_bind_eq_ok hcode
  obtain ⟨target, -, hcode⟩ := exists_of_bind_eq_ok hcode
  obtain ⟨name, -, hcode⟩ := exists_of_bind_eq_ok hcode
  have hstraight : ∀ line ∈ front, mnemonic line ∈ straightWords := by
    cases kind with
    | multiply =>
        obtain ⟨first, -, hfront⟩ := exists_of_bind_eq_ok hfront
        obtain ⟨second, -, hfront⟩ := exists_of_bind_eq_ok hfront
        cases hfront
        simp [mnemonic, straightWords]
    | divide | add | subtract =>
        obtain ⟨⟨first, second⟩, -, hfront⟩ := exists_of_bind_eq_ok hfront
        cases hfront
        simp [mnemonic, straightWords]
  cases hcode
  intro line hline
  rcases List.mem_append.mp hline with hmem | hmem
  · exact hstraight line hmem
  · rw [List.mem_singleton.mp hmem]
    simp [mnemonic, straightWords]

private theorem straight_callLines {names : Names} {number arguments error : Node}
    {code : List String} (hcode : callLines names number arguments error = .ok code) :
    ∀ line ∈ code, mnemonic line ∈ straightWords := by
  obtain ⟨name, -, hcode⟩ := exists_of_bind_eq_ok hcode
  obtain ⟨items, -, hcode⟩ := exists_of_bind_eq_ok hcode
  obtain ⟨texts, -, hcode⟩ := exists_of_bind_eq_ok hcode
  cases hcode
  intro line hline
  rcases List.mem_cons.mp hline with rfl | hline
  · simp [mnemonic, straightWords]
  rcases List.mem_append.mp hline with hmem | hmem
  · rw [← List.map_uncurry_zip_eq_zipWith] at hmem
    obtain ⟨⟨register, text⟩, -, heq⟩ := List.mem_map.mp hmem
    have hload : line = "mov " ++ register ++ ", " ++ text := heq.symm
    simp [mnemonic, straightWords, hload]
  rcases List.mem_cons.mp hmem with rfl | hmem
  · simp [mnemonic, straightWords]
  · rw [List.mem_singleton.mp hmem]
    simp [mnemonic, straightWords]

private theorem straight_compareCode {condition : Node} {compared : List String}
    (hcompared : compareCode condition = .ok compared) :
    ∀ line ∈ compared, mnemonic line ∈ straightWords := by
  obtain ⟨left, -, hcompared⟩ := exists_of_bind_eq_ok hcompared
  obtain ⟨right, -, hcompared⟩ := exists_of_bind_eq_ok hcompared
  split at hcompared
  · cases hcompared
    simp [mnemonic, straightWords]
  · cases hcompared
    simp [mnemonic, straightWords]
  · obtain ⟨value, -, hcompared⟩ := exists_of_bind_eq_ok hcompared
    obtain ⟨name, -, hcompared⟩ := exists_of_bind_eq_ok hcompared
    cases hcompared
    simp [mnemonic, straightWords]

/-- **The instructions of a statement** go straight on, or are the jumps of a conditional. -/
theorem ownCode_cases {names : Names} {stream : Nat → Int} {position : Nat} {node : Node}
    {code : List String} (hcode : ownCode names stream position node = .ok code) :
    (∀ line ∈ code, mnemonic line ∈ straightWords) ∧ node.isConditional = false ∨
      ∃ compared relation, node.isConditional = true ∧
        (∀ line ∈ compared, mnemonic line ∈ straightWords) ∧
        code = compared ++ [jump relation ++ " " ++ thenLabelAt stream position,
          jump (opposite relation) ++ " " ++ elseLabelAt stream position] := by
  cases node with
  | arithmetic kind left right result => exact Or.inl ⟨straight_operationLines hcode, rfl⟩
  | syscall number arguments error => exact Or.inl ⟨straight_callLines hcode, rfl⟩
  | ifElse condition thenBlock elseBlock =>
      obtain ⟨compared, hcompared, hcode⟩ := exists_of_bind_eq_ok hcode
      obtain ⟨relation, -, hcode⟩ := exists_of_bind_eq_ok hcode
      cases hcode
      exact Or.inr ⟨compared, relation, rfl, straight_compareCode hcompared, rfl⟩
  | _ =>
      cases hcode
      exact Or.inl ⟨fun line hline => absurd hline List.not_mem_nil, rfl⟩

end Generate

end LineCompiler
