import LineCompiler.Assembly.Generate
import LineCompiler.Proofs.Machine.Basic
import LineCompiler.Proofs.Text.Split
import LineCompiler.Proofs.Text.Trim

/-!
# Lines of assembly code

An instruction is written as a word with up to two operands.  The lines of generated code are texts,
so what they do is what the instructions do that they are read as (`runLines`).  In the place of a
source a word is the name of a symbol, and stands for its address; in brackets it stands for its
content.

A name is always taken for a symbol there, also if it is spelled like a register.  An assembler
would take `rax` or `[rax]` for the register, so such names are not meant: what is said of the code
for names holds of names that a symbol can have.  The registers stand in the other places, and are
read by `View.ofName?`.

Reading a line undoes writing it (`decode_line`): no two instructions are written the same.
-/

namespace LineCompiler

open Text Number

/-- The identifier that characters spell. -/
def Identifier.ofChars? : List Char → Option Identifier
  | [] => none
  | first :: rest =>
      if hok : (first.isAlpha = true ∨ first = '_') ∧ ∀ c ∈ rest, c.isAlphanum = true ∨ c = '_' then
        some ⟨first, rest, hok.1, hok.2⟩
      else none

@[simp] theorem Identifier.ofChars?_text (name : Identifier) : ofChars? name.text = some name :=
  dif_pos ⟨name.first_ok, name.rest_ok⟩

namespace Machine

/-! ## Operands -/

/-- The name of a register or its lower half. -/
def View.name : View → String
  | ⟨.rax, .quad⟩ => "rax"
  | ⟨.rax, .dword⟩ => "eax"
  | ⟨.rbx, .quad⟩ => "rbx"
  | ⟨.rbx, .dword⟩ => "ebx"
  | ⟨.rcx, .quad⟩ => "rcx"
  | ⟨.rcx, .dword⟩ => "ecx"
  | ⟨.rdx, .quad⟩ => "rdx"
  | ⟨.rdx, .dword⟩ => "edx"
  | ⟨.rsi, .quad⟩ => "rsi"
  | ⟨.rsi, .dword⟩ => "esi"
  | ⟨.rdi, .quad⟩ => "rdi"
  | ⟨.rdi, .dword⟩ => "edi"
  | ⟨.r8, .quad⟩ => "r8"
  | ⟨.r8, .dword⟩ => "r8d"
  | ⟨.r9, .quad⟩ => "r9"
  | ⟨.r9, .dword⟩ => "r9d"
  | ⟨.r10, .quad⟩ => "r10"
  | ⟨.r10, .dword⟩ => "r10d"
  | ⟨.r11, .quad⟩ => "r11"
  | ⟨.r11, .dword⟩ => "r11d"

/-- The registers and their lower halves. -/
def View.all : List View :=
  [.rax, .rbx, .rcx, .rdx, .rsi, .rdi, .r8, .r9, .r10, .r11].flatMap fun register =>
    [⟨register, .quad⟩, ⟨register, .dword⟩]

/-- The register, or lower half of one, with a name. -/
def View.ofName? (word : List Char) : Option View :=
  View.all.find? fun view => view.name = String.ofList word

@[simp] theorem View.ofName?_name (view : View) : ofName? view.name.toList = some view := by
  rw [ofName?, String.ofList_toList]
  obtain ⟨register, width⟩ := view
  cases register <;> cases width <;> decide

private theorem View.isPart_of_mem_name (view : View) :
    ∀ c ∈ view.name.toList, Flat.isPart c = true := by
  apply List.all_eq_true.mp
  obtain ⟨register, width⟩ := view
  cases register <;> cases width <;> decide

/-- The number that a decimal numeral of any length spells. -/
def numeral? (word : List Char) : Option Int :=
  let (negative, digits) := splitSign word
  if digits ≠ [] ∧ digits.all Char.isDigit then
    let value : Int := Nat.ofDigitChars 10 digits 0
    some (if negative then -value else value)
  else none

theorem numeral?_integerText (value : Int) : numeral? (integerText value).toList = some value := by
  have hne : Nat.toDigits 10 value.natAbs ≠ [] := Nat.toDigits_ne_nil
  have hdigits : ∀ c ∈ Nat.toDigits 10 value.natAbs, c.isDigit = true := fun c hc =>
    Nat.isDigit_of_mem_toDigits (by decide) (by decide) hc
  have hall : Nat.toDigits 10 value.natAbs ≠ [] ∧
      (Nat.toDigits 10 value.natAbs).all Char.isDigit = true :=
    ⟨hne, List.all_eq_true.mpr hdigits⟩
  by_cases hnegative : value < 0
  · have htext : (integerText value).toList = '-' :: Nat.toDigits 10 value.natAbs := by
      simp [integerText, hnegative, Nat.toList_repr]
    rw [htext, numeral?, splitSign]
    simp only [if_pos hall, if_true, Nat.ofDigitChars_ten_toDigits, Option.some.injEq]
    omega
  · have htext : (integerText value).toList = Nat.toDigits 10 value.natAbs := by
      simp [integerText, hnegative, Nat.toList_repr]
    rw [htext, numeral?, splitSign_of_isDigit hdigits]
    simp only [if_pos hall, Bool.false_eq_true, if_false, Nat.ofDigitChars_ten_toDigits,
      Option.some.injEq]
    omega

private theorem numeral?_identifier (name : Identifier) : numeral? name.text = none := by
  obtain ⟨first, rest, hfirst, hrest⟩ := name
  have hdigit : first.isDigit = false := by
    rw [← Bool.not_eq_true]
    intro hdigit
    rcases hfirst with hletter | rfl
    · have := isDigit_bounds hdigit
      have := isAlpha_bounds hletter
      omega
    · exact absurd hdigit (by decide)
  have hsign : splitSign (first :: rest) = (false, first :: rest) := by
    unfold splitSign
    split
    · rename_i heq
      injection heq with hminus
      rw [hminus] at hfirst
      exact absurd hfirst (by decide)
    · rename_i heq
      injection heq with hplus
      rw [hplus] at hfirst
      exact absurd hfirst (by decide)
    · rfl
  rw [Identifier.text, numeral?, hsign]
  simp [hdigit]

/-- A symbol in brackets. -/
def contentText (symbol : Identifier) : List Char :=
  '[' :: (symbol.text ++ [']'])

/-- The symbol that stands in brackets. -/
def content? : List Char → Option Identifier
  | '[' :: rest => if rest.getLast? = some ']' then Identifier.ofChars? rest.dropLast else none
  | _ => none

@[simp] theorem content?_contentText (symbol : Identifier) :
    content? (contentText symbol) = some symbol := by
  rw [contentText, content?, List.getLast?_concat, if_pos rfl, List.dropLast_concat,
    Identifier.ofChars?_text]

/-- A text without brackets in front is no content. -/
theorem content?_eq_none {word : List Char} (hword : '[' ∉ word) : content? word = none := by
  unfold content?
  split
  · exact absurd (List.mem_cons_self ..) hword
  · rfl

/-- The text of a source. -/
def Source.text : Source → List Char
  | .immediate value => (integerText value).toList
  | .content symbol => contentText symbol
  | .address symbol => symbol.text

/-- The source that a word stands for.  A name is a symbol, and never a register. -/
def Source.ofText? (word : List Char) : Option Source :=
  match content? word with
  | some symbol => some (.content symbol)
  | none =>
      match numeral? word with
      | some value => some (.immediate value)
      | none => (Identifier.ofChars? word).map .address

@[simp] theorem Source.ofText?_text (source : Source) : ofText? source.text = some source := by
  cases source with
  | immediate value =>
      have hbracket : '[' ∉ (integerText value).toList :=
        Flat.not_mem_integerText (by decide) (by decide) value
      simp only [ofText?, text, content?_eq_none hbracket, numeral?_integerText]
  | content symbol => simp only [ofText?, text, content?_contentText]
  | address symbol =>
      have hbracket : '[' ∉ symbol.text := symbol.not_mem_text (by decide)
      simp only [ofText?, text, content?_eq_none hbracket, numeral?_identifier,
        Identifier.ofChars?_text, Option.map_some]

/-! ## Words -/

/-- Whether a word has a character, and no blank. -/
def isSolid (word : List Char) : Bool :=
  !word.isEmpty && !word.any isBlank

theorem isSolid_iff {word : List Char} :
    isSolid word = true ↔ word ≠ [] ∧ ∀ c ∈ word, isBlank c = false := by
  simp [isSolid]

private theorem isSolid_of_isPart {word : List Char} (hne : word ≠ [])
    (hword : ∀ c ∈ word, Flat.isPart c = true) :
    isSolid word = true :=
  isSolid_iff.mpr ⟨hne, fun c hc => Flat.isBlank_of_isPart (hword c hc)⟩

theorem isSolid_append {first second : List Char} (hfirst : isSolid first = true)
    (hsecond : isSolid second = true) :
    isSolid (first ++ second) = true := by
  rw [isSolid_iff] at hfirst hsecond ⊢
  refine ⟨List.append_ne_nil_of_left_ne_nil hfirst.1 second, fun c hc => ?_⟩
  rcases List.mem_append.mp hc with hc | hc
  · exact hfirst.2 c hc
  · exact hsecond.2 c hc

theorem isSolid_identifier (name : Identifier) : isSolid name.text = true :=
  isSolid_of_isPart (List.cons_ne_nil _ _) name.isPart_of_mem

theorem View.isSolid_name (view : View) : isSolid view.name.toList = true := by
  obtain ⟨register, width⟩ := view
  cases register <;> cases width <;> decide

theorem isSolid_contentText (symbol : Identifier) : isSolid (contentText symbol) = true :=
  isSolid_append (show isSolid ['['] = true by decide)
    (isSolid_append (isSolid_identifier symbol) (by decide))

private theorem Source.isSolid_text (source : Source) : isSolid source.text = true := by
  cases source with
  | immediate value =>
      have hne : (integerText value).toList ≠ [] := by
        intro hnil
        have hvalue := numeral?_integerText value
        rw [hnil] at hvalue
        cases hvalue
      refine isSolid_iff.mpr ⟨hne, fun c hc => ?_⟩
      rcases Flat.mem_integerText hc with rfl | hdigit
      · decide
      · exact Flat.isBlank_of_isPart (Flat.isPart_of_isDigit hdigit)
  | content symbol => exact isSolid_contentText symbol
  | address symbol => exact isSolid_identifier symbol

/-- Words with a space between each two of them. -/
def spaced : List (List Char) → List Char
  | [] => []
  | first :: rest => first ++ rest.flatMap (' ' :: ·)

/-- The words of a line. -/
def lineWords (line : String) : List (List Char) :=
  splitOn ' ' (strip line.toList)

/-- A line of words is read as these words. -/
theorem lineWords_instruction {first : List Char} {rest : List (List Char)}
    (hwords : ∀ word ∈ first :: rest, isSolid word = true) :
    lineWords (Generate.instruction (String.ofList (spaced (first :: rest)))) = first :: rest := by
  have hnone : ∀ word ∈ first :: rest, ' ' ∉ word := fun word hword hmem =>
    absurd ((isSolid_iff.mp (hwords word hword)).2 ' ' hmem) (by decide)
  have hline : (Generate.instruction (String.ofList (spaced (first :: rest)))).toList =
      '\t' :: (spaced (first :: rest) ++ ['\n']) := by
    simp [Generate.instruction]
  obtain ⟨hfirstNe, hfirst⟩ := isSolid_iff.mp (hwords first (List.mem_cons_self ..))
  obtain ⟨c, others, rfl⟩ := List.exists_cons_of_ne_nil hfirstNe
  -- The last word is the first one or stands behind the last space.
  obtain ⟨front, last, hlast, hspaced⟩ : ∃ front last, last ∈ (c :: others) :: rest ∧
      spaced ((c :: others) :: rest) = front ++ last := by
    rcases List.eq_nil_or_concat rest with rfl | ⟨before, last, rfl⟩
    · exact ⟨[], c :: others, List.mem_cons_self .., by simp [spaced]⟩
    · exact ⟨(c :: others) ++ before.flatMap (' ' :: ·) ++ [' '], last, by simp, by simp [spaced]⟩
  obtain ⟨hlastNe, hlastBlank⟩ := isSolid_iff.mp (hwords last hlast)
  have hend : (spaced ((c :: others) :: rest)).getLast? = some (last.getLast hlastNe) := by
    rw [hspaced, List.getLast?_append, List.getLast?_eq_some_getLast hlastNe, Option.some_or]
  have hstrip : strip ('\t' :: (spaced ((c :: others) :: rest) ++ ['\n'])) =
      spaced ((c :: others) :: rest) := by
    rw [strip, trim_cons_of (by decide), trim_append_singleton_of (by decide)]
    exact trim_eq_self_of_ends (hfirst c (List.mem_cons_self ..))
      (hlastBlank _ (List.getLast_mem hlastNe)) rfl hend
  rw [lineWords, hline, hstrip, spaced]
  exact splitOn_append_flatMap (hnone _ (List.mem_cons_self ..)) fun word hword =>
    hnone word (List.mem_cons_of_mem _ hword)

/-! ## Instructions -/

/-- The jump that is taken if a relation holds. -/
def jumpName : Relation → String
  | .equal => "je"
  | .notEqual => "jne"
  | .greater => "jg"
  | .greaterEqual => "jge"
  | .smaller => "jl"
  | .smallerEqual => "jle"

/-- The relation that a jump looks for. -/
def jumpRelation? (word : List Char) : Option Relation :=
  [Relation.equal, .notEqual, .greater, .greaterEqual, .smaller, .smallerEqual].find?
    fun relation => jumpName relation = String.ofList word

/-- The words of an instruction. -/
def Instruction.words : Instruction → List (List Char)
  | .load target source => ["mov".toList, target.name.toList ++ [','], source.text]
  | .store symbol source => ["mov".toList, contentText symbol ++ [','], source.name.toList]
  | .add target source => ["add".toList, target.name.toList ++ [','], source.text]
  | .subtract target source => ["sub".toList, target.name.toList ++ [','], source.text]
  | .multiply width target source =>
      ["imul".toList, (View.name ⟨target, width⟩).toList ++ [','],
        (View.name ⟨source, width⟩).toList]
  | .exclusiveOr width target source =>
      ["xor".toList, (View.name ⟨target, width⟩).toList ++ [','],
        (View.name ⟨source, width⟩).toList]
  | .divide divisor => ["idiv".toList, divisor.name.toList]
  | .compare left right => ["cmp".toList, left.name.toList ++ [','], right.text]
  | .compareContent symbol right => ["cmp".toList, contentText symbol ++ [','], right.name.toList]
  | .jump relation label => [(jumpName relation).toList, label.text]
  | .call => ["syscall".toList]

/-- The line of an instruction. -/
def Instruction.line (instruction : Instruction) : String :=
  Generate.instruction (String.ofList (spaced instruction.words))

/-- Two registers, or lower halves of registers, of one width. -/
def pair? (first second : List Char) : Option (Width × Register × Register) := do
  let target ← View.ofName? first
  let source ← View.ofName? second
  if target.width = source.width then some (target.width, target.register, source.register)
  else none

/-- The instruction of a line with two operands. -/
def binary? (mnemonic : String) (first second : List Char) : Option Instruction :=
  match mnemonic with
  | "mov" =>
      match content? first with
      | some symbol => return .store symbol (← View.ofName? second)
      | none => return .load (← View.ofName? first) (← Source.ofText? second)
  | "cmp" =>
      match content? first with
      | some symbol => return .compareContent symbol (← View.ofName? second)
      | none => return .compare (← View.ofName? first) (← Source.ofText? second)
  | "add" => return .add (← View.ofName? first) (← Source.ofText? second)
  | "sub" => return .subtract (← View.ofName? first) (← Source.ofText? second)
  | "imul" => (pair? first second).map fun (width, target, source) => .multiply width target source
  | "xor" =>
      (pair? first second).map fun (width, target, source) => .exclusiveOr width target source
  | _ => none

/-- The instruction of a line with one operand. -/
def unary? (mnemonic operand : List Char) : Option Instruction :=
  match jumpRelation? mnemonic with
  | some relation => (Identifier.ofChars? operand).map (.jump relation)
  | none => if mnemonic = "idiv".toList then (View.ofName? operand).map .divide else none

/-- The instruction that words stand for. -/
def ofWords? : List (List Char) → Option Instruction
  | [mnemonic] => if mnemonic = "syscall".toList then some .call else none
  | [mnemonic, operand] => unary? mnemonic operand
  | [mnemonic, first, second] =>
      if first.getLast? = some ',' then binary? (String.ofList mnemonic) first.dropLast second
      else none
  | _ => none

/-- The instruction on a line. -/
def decode (line : String) : Option Instruction :=
  ofWords? (lineWords line)

/-! ## Reading undoes writing -/

@[simp] theorem content?_name (view : View) : content? view.name.toList = none :=
  content?_eq_none (Flat.not_mem_of_isPart view.isPart_of_mem_name (by decide))

@[simp] theorem jumpRelation?_jumpName (relation : Relation) :
    jumpRelation? (jumpName relation).toList = some relation := by
  cases relation <;> decide

@[simp] theorem pair?_names (width : Width) (target source : Register) :
    pair? (View.name ⟨target, width⟩).toList (View.name ⟨source, width⟩).toList =
      some (width, target, source) := by
  simp [pair?]

private theorem ofWords?_binary (mnemonic : String) (first second : List Char) :
    ofWords? [mnemonic.toList, first ++ [','], second] = binary? mnemonic first second := by
  rw [ofWords?, List.getLast?_concat, if_pos rfl, List.dropLast_concat, String.ofList_toList]

private theorem Instruction.isSolid_of_mem (instruction : Instruction) :
    ∀ word ∈ instruction.words, isSolid word = true := by
  have hname : ∀ view : View, isSolid (view.name.toList ++ [',']) = true := fun view =>
    isSolid_append view.isSolid_name (by decide)
  have hcontent : ∀ symbol, isSolid (contentText symbol ++ [',']) = true := fun symbol =>
    isSolid_append (isSolid_contentText symbol) (by decide)
  have hjump : ∀ relation, isSolid (jumpName relation).toList = true := by
    intro relation
    cases relation <;> decide
  cases instruction <;>
    simp only [words, List.mem_cons, List.not_mem_nil, or_false, forall_eq_or_imp, forall_eq, hname,
      hcontent, hjump, View.isSolid_name, Source.isSolid_text, isSolid_identifier, and_true] <;>
    decide

private theorem Instruction.ofWords?_words (instruction : Instruction) :
    ofWords? instruction.words = some instruction := by
  cases instruction with
  | divide divisor =>
      have hjump : jumpRelation? "idiv".toList = none := by decide
      rw [words, ofWords?, unary?, hjump]
      simp
  | jump relation label => simp [words, ofWords?, unary?]
  | call => rfl
  | _ =>
      -- All others have two operands.
      rw [words, ofWords?_binary]
      simp [binary?]

/-- **Reading a line undoes writing it.** -/
@[simp] theorem decode_line (instruction : Instruction) :
    decode instruction.line = some instruction := by
  have hsolid := instruction.isSolid_of_mem
  obtain ⟨first, rest, hwords⟩ : ∃ first rest, instruction.words = first :: rest := by
    cases instruction <;> exact ⟨_, _, rfl⟩
  rw [decode, Instruction.line]
  rw [hwords] at hsolid ⊢
  rw [lineWords_instruction hsolid, ← hwords, instruction.ofWords?_words]

/-! ## Running lines -/

/-- What lines do, if each of them has an instruction. -/
def runLines (platform : Platform) (state : State) (lines : List String) : Option Outcome :=
  (lines.mapM decode).map (run platform state)

/-- The lines of instructions do what the instructions do. -/
theorem runLines_lines (platform : Platform) (state : State) (instructions : List Instruction) :
    runLines platform state (instructions.map Instruction.line) =
      some (run platform state instructions) := by
  have hdecode : (instructions.map Instruction.line).mapM decode = some instructions := by
    induction instructions with
    | nil => rfl
    | cons instruction rest ih =>
        rw [List.map_cons, List.mapM_cons, decode_line, ih]
        rfl
  rw [runLines, hdecode, Option.map_some]

/-! ## Texts of lines -/

theorem line_load (target : View) (source : Source) :
    (Instruction.load target source).line =
      Generate.instruction ("mov " ++ target.name ++ ", " ++ String.ofList source.text) := by
  refine congrArg Generate.instruction (String.toList_injective ?_)
  simp [Instruction.words, spaced]

theorem line_store (symbol : Identifier) (source : View) :
    (Instruction.store symbol source).line =
      Generate.instruction ("mov " ++ String.ofList (contentText symbol) ++ ", " ++
        source.name) := by
  refine congrArg Generate.instruction (String.toList_injective ?_)
  simp [Instruction.words, spaced]

theorem line_compare (left : View) (right : Source) :
    (Instruction.compare left right).line =
      Generate.instruction ("cmp " ++ left.name ++ ", " ++ String.ofList right.text) := by
  refine congrArg Generate.instruction (String.toList_injective ?_)
  simp [Instruction.words, spaced]

theorem line_add (target : View) (source : Source) :
    (Instruction.add target source).line =
      Generate.instruction ("add " ++ target.name ++ ", " ++ String.ofList source.text) := by
  refine congrArg Generate.instruction (String.toList_injective ?_)
  simp [Instruction.words, spaced]

theorem line_subtract (target : View) (source : Source) :
    (Instruction.subtract target source).line =
      Generate.instruction ("sub " ++ target.name ++ ", " ++ String.ofList source.text) := by
  refine congrArg Generate.instruction (String.toList_injective ?_)
  simp [Instruction.words, spaced]

theorem line_jump (relation : Relation) (label : Identifier) :
    (Instruction.jump relation label).line =
      Generate.instruction (jumpName relation ++ " " ++ String.ofList label.text) := by
  refine congrArg Generate.instruction (String.toList_injective ?_)
  simp [Instruction.words, spaced]

/-- The content of a name, as generated code spells it. -/
theorem contentOf_atom (name : Identifier) :
    Generate.contentOf (.bare name.atom) = String.ofList (contentText name) := by
  refine String.toList_injective ?_
  simp [Generate.contentOf, Node.plain, Identifier.atom, Atom.ofChars, Atom.plain, contentText]

end Machine

end LineCompiler
