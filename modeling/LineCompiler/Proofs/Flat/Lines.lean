import LineCompiler.Proofs.Flat.Calls
import LineCompiler.Proofs.Flat.Conditions
import LineCompiler.Proofs.Program.Effect

/-!
# The lines of the flat language

Each line of a program is scanned to tokens, whatever spaces stand between its elements, and these
tokens are read to a node, or to the opening or closing of a block.  If no tight element has more
spaces in front of it, it is the node that the line stands for (`Simple.nodeRead_eq_iff`,
`conditionRead_eq_iff`), and only then.  The line that closes a conditional is the only one that the
scan may refuse (`scanLine_endRow`).

The scan compares beginnings of reserved words with the declared names.  Only names of the flat
language are ever declared, and none of them is such a beginning.
-/

namespace LineCompiler.Flat

open Text Number Scan

/-! ## The declared names -/

/-- The declared names are names of the flat language. -/
structure AllNames (names : Names) : Prop where
  spelled : ∀ name ∈ names.constants ++ names.vars ++ names.pointers,
    ∃ spelled : Name, name = String.ofList spelled.text
  noFunctions : names.functions = []

theorem allNames_empty : AllNames {} where
  spelled _ hname := absurd hname List.not_mem_nil
  noFunctions := rfl

theorem AllNames.append {first second : Names} (hfirst : AllNames first)
    (hsecond : AllNames second) : AllNames (first.append second) where
  spelled name hname := by
    have hmem : name ∈ first.constants ++ first.vars ++ first.pointers ∨
        name ∈ second.constants ++ second.vars ++ second.pointers := by
      simp only [Names.append, List.mem_append] at hname ⊢
      grind
    rcases hmem with hmem | hmem
    · exact hfirst.spelled name hmem
    · exact hsecond.spelled name hmem
  noFunctions := by
    simp [Names.append, hfirst.noFunctions, hsecond.noFunctions]

/-- A word that is no name of the flat language. -/
def IsFree (word : List Char) : Prop :=
  ∀ name : Name, name.text ≠ word

private theorem isFree_of_isPart {word : List Char} (hword : ∃ c ∈ word, isPart c = false) :
    IsFree word := by
  rintro name rfl
  obtain ⟨c, hc, hpart⟩ := hword
  rw [name.isPart_of_mem c hc] at hpart
  exact absurd hpart (by decide)

theorem isFree_nil : IsFree [] :=
  fun _ => List.cons_ne_nil _ _

theorem isFree_of_reserved {word reservedWord : List Char} (hreserved : reservedWord ∈ reserved)
    (hword : word <+: reservedWord) : IsFree word := by
  rintro name rfl
  exact name.free reservedWord hreserved hword

/-- A word that is no name of the flat language adds no tokens. -/
theorem AllNames.nameTokens_eq_nil {names : Names} (hnames : AllNames names) {word : List Char}
    (hword : IsFree word) : nameTokens names word = [] := by
  have hnot : String.ofList word ∉ names.constants ++ names.vars ++ names.pointers := by
    intro hmem
    obtain ⟨spelled, heq⟩ := hnames.spelled _ hmem
    exact hword spelled (String.ofList_injective heq).symm
  simp only [List.mem_append, not_or] at hnot
  simp [nameTokens, hnot, hnames.noFunctions]

theorem AllNames.identify_eq {names : Names} (hnames : AllNames names) {state : State}
    (hword : IsFree state.word) : identify names state = state := by
  simp [identify, State.push, hnames.nameTokens_eq_nil hword]

private theorem spelling_mem_reserved (opener : Opener) : opener.spelling ∈ reserved := by
  cases opener <;> simp [reserved]

theorem AllNames.beginningTokens_eq_nil {names : Names} (hnames : AllNames names)
    (opener : Opener) : beginningTokens names opener = [] := by
  rw [beginningTokens, List.flatMap_eq_nil_iff]
  intro word hword
  obtain ⟨more, -, hmore, rfl⟩ := mem_growth.mp hword
  exact hnames.nameTokens_eq_nil (isFree_of_reserved (spelling_mem_reserved opener)
    (hmore.trans (List.dropLast_prefix _)))

/-! ## Simple statements -/

/-- The tokens of a simple statement behind its keyword, as they are read. -/
def Simple.tokensRead (gaps : Gaps) : Simple → List Token
  | .constant name size type value =>
      readTokens true name (sizeRead (gaps.after 2) size type (some value)) type (some value)
  | .var name size type => readTokens true name (sizeRead (gaps.after 2) size type none) type none
  | .pointer name type value => readTokens false name none type value
  | .syscall number arguments _ error => callTokensRead (gaps.after 1) number arguments error

private theorem Simple.elements_body (statement : Simple) (gaps : Gaps) (line : SourceLine) :
    statement.opener.elements line (rowLine gaps statement.body) =
      .ok (statement.tokensRead gaps) := by
  cases statement with
  | constant name size type value =>
      exact congrArg Except.ok (elements_declarationRow (fits_constants size value) gaps name type)
  | var name size type =>
      exact congrArg Except.ok (elements_declarationRow (fits_vars size) gaps name type)
  | pointer name type value =>
      exact congrArg Except.ok (elements_declarationRow (fits_pointers value) gaps name type)
  | syscall number arguments arity error =>
      exact elements_callRow line.number gaps number arguments arity error

private theorem Simple.body_head? (statement : Simple) (gaps : Gaps) :
    (rowLine gaps statement.body).head? ≠ some '\n' := by
  cases statement <;>
    simp [Simple.body, declarationElements, callElements, rowLine_cons, blanks_append_cons]

private theorem namesOf_readTokens (sized : Bool) (name : Name) (size : Option (List Char))
    (type : Scalar) (value : Option Value) :
    Declaration.namesOf (readTokens sized name size type value) = [String.ofList name.text] := by
  cases sized <;> cases size <;> cases value <;> rfl

theorem Simple.allNames_declares (statement : Simple) (gaps : Gaps) :
    AllNames (statement.opener.declares (statement.tokensRead gaps)) := by
  have hdeclared : ∀ declared : Names, ∀ name : Name,
      declared.constants ++ declared.vars ++ declared.pointers = [String.ofList name.text] →
      declared.functions = [] → AllNames declared := by
    intro declared name hspelled hfunctions
    refine ⟨fun other hother => ⟨name, ?_⟩, hfunctions⟩
    rw [hspelled, List.mem_singleton] at hother
    exact hother
  cases statement with
  | constant name size type value | var name size type | pointer name type value =>
      refine hdeclared _ name ?_ rfl
      simp [Simple.opener, Simple.tokensRead, Opener.declares, namesOf_readTokens]
  | syscall number arguments arity error => exact allNames_empty

theorem scanLine_row {names : Names} (hnames : AllNames names) (blocks : Blocks)
    {line : SourceLine} (gaps : Gaps) (indent : Nat) (statement : Simple)
    (hcontent : line.content = String.ofList (rowLine gaps (statement.row indent))) :
    scanLine names blocks line =
      ⟨0, .ok ⟨.keyword statement.opener.keyword :: statement.tokensRead (gaps.after 1),
        statement.opener.declares (statement.tokensRead (gaps.after 1)), blocks⟩⟩ := by
  have hblocks : statement.opener.blocksAfter blocks = blocks := by
    cases statement <;> rfl
  rw [Simple.row, rowLine_cons] at hcontent
  rw [scanLine_opener statement.opener (indent + gaps 0) (statement.body_head? _) hcontent
    (hnames.beginningTokens_eq_nil _) (statement.elements_body _ line), hblocks]

/-! ## The lines of a conditional -/

theorem scanLine_headRow {names : Names} (hnames : AllNames names) {line : SourceLine} (gaps : Gaps)
    (left : Operand) (comparison : Comparison) (right : Operand)
    (hcontent : line.content = String.ofList (rowLine gaps (headRow left comparison right))) :
    scanLine names {} line =
      ⟨0, .ok ⟨.keyword .cond :: headTokensRead (gaps 5) left comparison right, {},
        ⟨true, false, false⟩⟩⟩ := by
  have helements : ∀ rest, Opener.cond.elements line rest =
      .ok (headTokensRead (gaps 5) left comparison right) := by
    intro rest
    rw [Opener.elements, hcontent, String.toList_ofList, headElements_headRow]
  rw [headRow, rowLine_cons] at hcontent
  refine scanLine_opener .cond (0 + gaps 0) ?_ hcontent (hnames.beginningTokens_eq_nil _)
    (helements _)
  rw [rowLine_cons, blanks_append_cons]
  simp

/-- The line feed that ends the line of a brace is a word by itself. -/
theorem run_lineFeed {names : Names} (hnames : AllNames names) (line : SourceLine)
    (tokens : List Token) (blocks : Blocks) (ends : Nat) :
    run names line false ⟨[], tokens, blocks, ends⟩ ['\n'] =
      ⟨ends, .ok ⟨tokens, {}, blocks⟩⟩ := by
  have hfree : IsFree ['\n'] := isFree_of_isPart ⟨'\n', by simp, by decide⟩
  have hstep : step line false ⟨[], tokens, blocks, ends⟩ '\n' [] =
      .compare ⟨['\n'], tokens, blocks, ends⟩ := rfl
  rw [run_cons, hstep, conclude, hnames.identify_eq hfree]
  rfl

theorem run_blanks {names : Names} {line : SourceLine} {first : Bool} {state : State} (count : Nat)
    (rest : List Char) :
    run names line first state (blanks count ++ rest) =
      run names line (first && count = 0) state rest :=
  run_spaces count rest

/-- The word that opens the second block, behind a closed first block. -/
theorem run_else {names : Names} (hnames : AllNames names) (line : SourceLine)
    (tokens : List Token) (count : Nat) :
    run names line false ⟨[], tokens, ⟨false, false, true⟩, 0⟩
        (['e', 'l', 's'] ++ 'e' :: ' ' :: (blanks count ++ [openBrace, '\n'])) =
      ⟨0, .ok ⟨tokens ++ [.keyword .alt], {}, ⟨false, true, false⟩⟩⟩ := by
  have hbeginnings : (growth [] ['e', 'l', 's']).flatMap (nameTokens names) = [] := by
    rw [List.flatMap_eq_nil_iff]
    intro word hmem
    obtain ⟨more, -, hmore, rfl⟩ := mem_growth.mp hmem
    have hreserved : ['e', 'l', 's', 'e'] ∈ reserved := by simp [reserved]
    exact hnames.nameTokens_eq_nil
      (isFree_of_reserved hreserved (hmore.trans (List.prefix_append _ ['e'])))
  have hwords : ∀ word ∈ growth [] ['e', 'l', 's'], Keyword.ofWord? word = none := by decide
  -- The last letter completes the word, and the brace at the end of the line adds nothing.
  have hlast : ∀ rest,
      step line false ⟨['e', 'l', 's'], tokens, ⟨false, false, true⟩, 0⟩ 'e' (' ' :: rest) =
      .compare ⟨[], tokens ++ [.keyword .alt], ⟨false, true, false⟩, 0⟩ := fun _ => rfl
  have hspace : ∀ state rest, step line false state ' ' rest = .next state := fun _ _ => rfl
  have hbrace : ∀ state, step line false state openBrace ['\n'] = .next state :=
    fun _ => rfl
  rw [run_append_letters (List.all_eq_true.mp rfl) (by simp) hwords, hbeginnings]
  simp only [List.append_nil, List.nil_append, List.isEmpty_cons, Bool.and_false]
  rw [run_cons, hlast, conclude, hnames.identify_eq isFree_nil, run_cons, hspace, conclude,
    run_blanks, Bool.false_and, run_cons, hbrace, conclude, run_lineFeed hnames]

theorem scanLine_elseRow {names : Names} (hnames : AllNames names) {line : SourceLine} (gaps : Gaps)
    (hcontent : line.content = String.ofList (rowLine gaps elseRow)) :
    scanLine names ⟨true, false, false⟩ line =
      ⟨0, .ok ⟨[.symbol .closeBrace, .keyword .alt], {}, ⟨false, true, false⟩⟩⟩ := by
  have hrow : rowLine gaps elseRow =
      blanks (gaps 0) ++ closeBrace :: ' ' :: (blanks (gaps 1) ++
        (['e', 'l', 's'] ++ 'e' :: ' ' :: (blanks (gaps 2) ++ [openBrace, '\n']))) := by
    simp [elseRow, rowLine_cons, rowLine_nil, blanks_append_cons]
  have hbrace : ∀ first rest,
      step line first { blocks := ⟨true, false, false⟩ } closeBrace (' ' :: rest) =
      .next ⟨[], [.symbol .closeBrace], ⟨false, false, true⟩, 0⟩ := by
    intro first rest
    cases first <;> rfl
  have hspace : ∀ state rest, step line false state ' ' rest = .next state := fun _ _ => rfl
  rw [scanLine, hcontent, String.toList_ofList, hrow, run_blanks, run_cons, hbrace, conclude,
    run_cons, hspace, conclude, run_blanks]
  exact run_else hnames line _ _

/-- The brace that closes a conditional is refused behind spaces. -/
theorem scanLine_endRow {names : Names} (hnames : AllNames names) {line : SourceLine} (gaps : Gaps)
    (hcontent : line.content = String.ofList (rowLine gaps endRow)) :
    scanLine names ⟨false, true, false⟩ line =
      ⟨0, if gaps 0 = 0 then .ok ⟨[.symbol .closeBrace], {}, {}⟩
        else .error (.rejected (.missingSemicolon line.number))⟩ := by
  have hrow : rowLine gaps endRow = blanks (gaps 0) ++ [closeBrace, '\n'] := by
    simp [endRow, rowLine_cons, rowLine_nil]
  rw [scanLine, hcontent, String.toList_ofList, hrow, run_blanks]
  by_cases hgap : gaps 0 = 0
  · have hbrace : step line true { blocks := ⟨false, true, false⟩ } closeBrace ['\n'] =
        .next ⟨[], [.symbol .closeBrace], {}, 0⟩ := rfl
    rw [decide_eq_true hgap, Bool.and_self, run_cons, hbrace, conclude, run_lineFeed hnames,
      if_pos hgap]
  · rw [decide_eq_false hgap, Bool.and_false, if_neg hgap]
    rfl

theorem scanLine_elseLine {names : Names} (hnames : AllNames names) {line : SourceLine}
    (hcontent : line.content = String.ofList elseLine) :
    scanLine names ⟨true, false, false⟩ line =
      ⟨0, .ok ⟨[.symbol .closeBrace, .keyword .alt], {}, ⟨false, true, false⟩⟩⟩ :=
  scanLine_elseRow hnames (fun _ => 0) hcontent

theorem scanLine_endLine {names : Names} (hnames : AllNames names) {line : SourceLine}
    (hcontent : line.content = String.ofList endLine) :
    scanLine names ⟨false, true, false⟩ line =
      ⟨0, .ok ⟨[.symbol .closeBrace], {}, {}⟩⟩ :=
  scanLine_endRow hnames (fun _ => 0) hcontent

/-! ## Reading the tokens of a line -/

open Reader Token

theorem typeOf_text (type : Scalar) : typeOf (.ofChars type.text) = .ok type.1.2 := by
  obtain ⟨entry, hentry⟩ := type
  have hspellings : ∀ entry ∈ TypeName.spellings,
      TypeName.spellings.lookup entry.1 = some entry.2 := by decide
  simp only [typeOf, Atom.ofChars, Scalar.text, String.ofList_toList, TypeName.ofSpelling?,
    hspellings entry hentry]

/-- The node of a size that is read. -/
def sizeNodeOf (size : Option (List Char)) : Node :=
  .ofLiteral .number
    (match size with
    | none => .integer Declaration.defaultSize
    | some text => .ofChars text)

/-- The node of an argument with some spaces behind its star. -/
def Argument.nodeRead (gap : Nat) : Argument → Node
  | .dereferenced name => .reference .dereference (.ofName (.ofChars (blanks gap ++ name.text)))
  | argument => argument.node

/-- The node of a simple statement on the line with the given number, as it is read. -/
def Simple.nodeRead (gaps : Gaps) (number : Nat) : Simple → Node
  | .constant name size type value =>
      .constant (.ofName name.atom) (sizeNodeOf (sizeRead (gaps.after 2) size type (some value)))
        (.ofType type.1.2) (.ofLiteral type.1.2.literal (.ofChars value.text)) (.integer number)
  | .var name size type =>
      .variable (.ofName name.atom) (sizeNodeOf (sizeRead (gaps.after 2) size type none))
        (.ofType type.1.2) .absent (.integer number)
  | .pointer name type value => (Simple.pointer name type value).node number
  | .syscall number arguments _ error =>
      .syscall number.node
        (.list ((starGaps (gaps.after 1) arguments).map fun held => held.1.nodeRead held.2))
        (.ofName error.atom)

theorem arguments_append (argument : Argument) (gap : Nat) (tokens : List Token) :
    Reader.arguments false (argument.tokensRead gap ++ tokens) =
      (Reader.arguments false tokens).map (argument.nodeRead gap :: ·) := by
  cases argument <;>
    simp only [Argument.tokensRead, Argument.tokens, Argument.nodeRead, Argument.node,
      List.cons_append, List.nil_append, Reader.arguments, Token.entry, bind, Except.bind, pure,
      Except.pure, if_true, if_false, reduceCtorEq, Bool.false_eq_true] <;>
    cases Reader.arguments false tokens <;> rfl

private theorem arguments_tokensRead (held : List (Argument × Nat)) :
    Reader.arguments false (held.flatMap fun held => held.1.tokensRead held.2) =
      .ok (held.map fun held => held.1.nodeRead held.2) := by
  induction held with
  | nil => rfl
  | cons first rest ih =>
      rw [List.flatMap_cons, arguments_append, ih]
      rfl

/-- The tokens of a simple statement are read to a node. -/
theorem effect_row {line : SourceLine} {number : Nat} (hnumber : line.number = .integer number)
    (statement : Simple) (gaps : Gaps) :
    effect ⟨line, .keyword statement.opener.keyword :: statement.tokensRead gaps⟩ =
      .ok (.statement (statement.nodeRead gaps number)) := by
  rw [effect_opener, hnumber]
  cases statement with
  | constant name size type value =>
      have hnode : Reader.constant (.integer number)
          (.keyword .const :: (Simple.constant name size type value).tokensRead gaps) =
          .ok ((Simple.constant name size type value).nodeRead gaps number) := by
        cases size <;> exact congrArg (Except.map _) (typeOf_text type)
      exact congrArg (Except.map Effect.statement) hnode
  | var name size type =>
      have hnode : Reader.variableNode (.integer number)
          (.keyword .var :: (Simple.var name size type).tokensRead gaps) =
          .ok ((Simple.var name size type).nodeRead gaps number) := by
        cases size <;> exact congrArg (Except.map _) (typeOf_text type)
      exact congrArg (Except.map Effect.statement) hnode
  | pointer name type value =>
      have hnode : Reader.pointer (.integer number)
          (.keyword .ptr :: (Simple.pointer name type value).tokensRead gaps) =
          .ok ((Simple.pointer name type value).nodeRead gaps number) := by
        cases value <;> exact congrArg (Except.map _) (typeOf_text type)
      exact congrArg (Except.map Effect.statement) hnode
  | syscall number arguments arity error =>
      have hnode : Reader.syscall
          (.keyword .syscall :: callTokensRead (gaps.after 1) number arguments error) =
          .ok (.syscall number.node
            (.list ((starGaps (gaps.after 1) arguments).map fun held => held.1.nodeRead held.2))
            (.ofName error.atom)) := by
        cases number <;> exact Reader.syscall_append (arguments_tokensRead _)
      exact congrArg (Except.map Effect.statement) hnode

/-- The right operand that is read: without it, the parenthesis takes its place. -/
def rightNode (gap : Nat) (right : Operand) : Node :=
  if gap = 0 then right.node else .bare (.text Symbol.closeParen.label)

/-- The condition that is read. -/
def conditionRead (gap : Nat) (left : Operand) (comparison : Comparison) (right : Operand) : Node :=
  .compare left.node (rightNode gap right) (.relation comparison.relation)

theorem effect_headTokensRead (line : SourceLine) (gap : Nat) (left : Operand)
    (comparison : Comparison) (right : Operand) :
    effect ⟨line, .keyword .cond :: headTokensRead gap left comparison right⟩ =
      .ok (.conditional (conditionRead gap left comparison right)) := by
  rw [show Keyword.cond = Opener.cond.keyword from rfl, effect_opener]
  cases gap <;> cases left <;> cases comparison <;> cases right <;> rfl

/-! ## Lines that are read as they are meant -/

theorem Argument.nodeRead_eq_iff {argument : Argument} {gaps : Gaps} :
    argument.nodeRead (gaps 1) = argument.node ↔ IsHarmless gaps argument.elements := by
  cases argument with
  | integer value short | named name => simp [Argument.nodeRead, Argument.elements, IsHarmless]
  | dereferenced name =>
      simp [Argument.nodeRead, Argument.node, Argument.elements, IsHarmless, Node.ofName, Name.atom,
        Atom.ofChars]

private theorem map_nodeRead_eq_iff {gaps : Gaps} {error : Name} {arguments : List Argument} :
    ((starGaps gaps arguments).map fun held => held.1.nodeRead held.2) =
      arguments.map Argument.node ↔
      IsHarmless gaps (argumentElements error arguments) := by
  induction arguments generalizing gaps with
  | nil => simp [starGaps, argumentElements, IsHarmless]
  | cons argument rest ih =>
      have hargument := @Argument.nodeRead_eq_iff argument (gaps.after 1)
      rw [starGaps, List.map_cons, List.map_cons, List.cons.injEq, ih, argumentElements, IsHarmless,
        isHarmless_append, ← hargument]
      simp

theorem isHarmless_declarationElements {gaps : Gaps} {name : Name} {size : Option Numeral}
    {type : Scalar} {value : Option Value} :
    IsHarmless gaps (declarationElements name size type value) ↔ (size ≠ none → gaps 4 = 0) := by
  cases size <;> cases value <;>
    simp [declarationElements, sizeElements, typeElements, behindColon, valueElements, IsHarmless]

theorem sizeNodeOf_eq_iff {gaps : Gaps} {size : Option Numeral} {type : Scalar}
    {value : Option Value} :
    sizeNodeOf (sizeRead (gaps.after 2) size type value) = sizeNode size ↔
      (size ≠ none → gaps 4 = 0) := by
  cases size with
  | none => simp [sizeRead, sizeNodeOf, sizeNode]
  | some numeral =>
      have hread := @sizeRead_eq_iff (gaps.after 2) numeral type value
      rw [Gaps.after_apply, sizeRead, Option.map_some, Option.some.injEq] at hread
      rw [sizeRead, Option.map_some]
      generalize Declaration.sizeText _ = text at hread ⊢
      have hofList : String.ofList text = String.ofList numeral.digits ↔ text = numeral.digits :=
        ⟨fun heq => String.ofList_injective heq, congrArg _⟩
      simp [sizeNodeOf, sizeNode, Node.ofLiteral, Atom.ofChars, hofList, hread]

/-- **A simple statement is read as it is meant** exactly if its tight elements have no more spaces
in front of them. -/
theorem Simple.nodeRead_eq_iff {statement : Simple} {gaps : Gaps} {number indent : Nat} :
    statement.nodeRead (gaps.after 1) number = statement.node number ↔
      IsHarmless gaps (statement.row indent) := by
  have hbody : IsHarmless gaps (statement.row indent) ↔
      IsHarmless (gaps.after 1) statement.body := by
    simp [Simple.row, IsHarmless]
  rw [hbody]
  cases statement with
  | constant name size type value =>
      rw [Simple.body, isHarmless_declarationElements,
        ← @sizeNodeOf_eq_iff _ size type (some value)]
      simp [Simple.nodeRead, Simple.node]
  | var name size type =>
      rw [Simple.body, isHarmless_declarationElements, ← @sizeNodeOf_eq_iff _ size type none]
      simp [Simple.nodeRead, Simple.node]
  | pointer name type value =>
      rw [Simple.body, isHarmless_declarationElements]
      simp [Simple.nodeRead]
  | syscall callNumber arguments arity error =>
      rw [Simple.body, callElements, IsHarmless, ← map_nodeRead_eq_iff]
      simp [Simple.nodeRead, Simple.node]

theorem conditionRead_eq_iff {gaps : Gaps} {left right : Operand} {comparison : Comparison} :
    conditionRead (gaps 5) left comparison right =
        .compare left.node right.node (.relation comparison.relation) ↔
      IsHarmless gaps (headRow left comparison right) := by
  have hright : rightNode (gaps 5) right = right.node ↔ gaps 5 = 0 := by
    rw [rightNode]
    by_cases hgap : gaps 5 = 0
    · simp [hgap]
    · rw [if_neg hgap]
      cases right <;> simp [Operand.node, Node.ofName, Node.ofLiteral, hgap]
  simp [conditionRead, hright, headRow, IsHarmless]

end LineCompiler.Flat
