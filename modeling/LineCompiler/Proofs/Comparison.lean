import LineCompiler.Proofs.Compile
import LineCompiler.Proofs.Flat.Lines
import LineCompiler.Proofs.Token.Identifier
import LineCompiler.Proofs.Token.Renumber

/-!
# The spellings of comparisons

Two tables tell how comparisons are spelled, one for the scan of a line and one for the reading of
its tokens.  They differ in one entry: the comparison "smaller or equal" is `=<` in the first and
`<=` in the second.  So a condition with `<=` is not scanned, one with `=<` is scanned and not read,
and no program that is read from a source compares by it.  The other five comparisons are read as
they are written, whatever further characters of this kind stand behind the first two
(`comparison_read`).
-/

namespace LineCompiler

open Text Number

/-! ## Spellings -/

/-- Characters that open a comparison, in the place of a comparison. -/
structure Operator where
  first : Char
  rest : List Char
  opens : ∀ c ∈ first :: rest, Condition.opensRelation c = true

namespace Operator

/-- The characters of a spelling. -/
def text (operator : Operator) : List Char :=
  operator.first :: operator.rest

/-- The characters that count. -/
def spelled (operator : Operator) : List Char :=
  operator.text.take 2

/-- The refusal of a spelling that means no comparison. -/
def refusal (operator : Operator) (line : Atom) : Rejection :=
  if operator.rest.isEmpty then .conditionSpacing line
  else .comparison (String.ofList operator.spelled) line

private theorem spelled_ne_nil (operator : Operator) : operator.spelled ≠ [] :=
  List.cons_ne_nil _ _

end Operator

namespace Condition

private theorem opensRelation_iff {c : Char} :
    opensRelation c = true ↔ c = '=' ∨ c = '!' ∨ c = '>' ∨ c = '<' := by
  simp [opensRelation, or_assoc]

variable {line : Atom} {left right : List Char}

/-- Behind a spelling of two characters, further ones are passed over. -/
theorem elementsFrom_relations {spelled : List Char} (hspelled : spelled.length = 2)
    {text : List Char} (htext : ∀ c ∈ text, opensRelation c = true) (rest : List Char) :
    elementsFrom line spelled left right (text ++ rest) =
      elementsFrom line spelled left right rest := by
  have hne : spelled.isEmpty = false := by
    cases spelled with
    | nil => exact absurd hspelled (by decide)
    | cons c others => rfl
  induction text with
  | nil => rfl
  | cons c others ih =>
      have hc := htext c (List.mem_cons_self ..)
      have hspace : c ≠ ' ' := by
        rintro rfl
        exact absurd hc (by decide)
      rw [List.cons_append, elementsFrom, if_neg hspace, hne, hc]
      simp only [Bool.and_false, Bool.false_eq_true, if_false, hspelled, decide_true, Bool.and_self,
        if_true]
      exact ih fun d hd => htext d (List.mem_cons_of_mem _ hd)

/-- **A spelling is read by its first two characters.** -/
theorem elementsFrom_operator (operator : Operator) (rest : List Char) :
    elementsFrom line [] left right (operator.text ++ ' ' :: rest) =
      match relation? operator.spelled with
      | none => .error (.rejected (operator.refusal line))
      | some relation =>
          (elementsFrom line operator.spelled left right rest).map fun after =>
            operandToken left :: .of (.relation relation) (.ofChars operator.spelled) :: after := by
  obtain ⟨first, others, hopens⟩ := operator
  have hfirst := opensRelation_iff.mp (hopens first (List.mem_cons_self ..))
  cases others with
  | nil =>
      rcases hfirst with rfl | rfl | rfl | rfl <;>
        simp [Operator.text, Operator.spelled, Operator.refusal, elementsFrom, opensRelation,
          spelling, relation?]
  | cons second others =>
      have hsecond := hopens second (by simp)
      have hspace : second ≠ ' ' := by
        rintro rfl
        exact absurd hsecond (by decide)
      have hspace' : first ≠ ' ' := by
        rintro rfl
        exact absurd (hopens ' ' (List.mem_cons_self ..)) (by decide)
      have hspelling : spelling line first (second :: (others ++ ' ' :: rest)) =
          .ok [first, second] := by
        simp [spelling, hspace]
      have hpassed : elementsFrom line [first, second] left right
          (second :: (others ++ ' ' :: rest)) =
          elementsFrom line [first, second] left right rest := by
        rw [← List.cons_append,
          elementsFrom_relations rfl fun c hc => hopens c (List.mem_cons_of_mem _ hc),
          elementsFrom_space]
      simp only [Operator.text, Operator.spelled, Operator.refusal, List.cons_append,
        List.take_succ_cons, List.take_zero, List.isEmpty_cons, Bool.false_eq_true, if_false]
      rw [elementsFrom, if_neg hspace', hopens first (List.mem_cons_self ..)]
      cases hrelation : relation? [first, second] <;>
        simp only [List.isEmpty_nil, Bool.and_self, if_true, hspelling, hpassed, hrelation]

/-! ## Heads of conditionals -/

/-- The line of the head of a conditional with the given condition. -/
def headLine (condition : List Char) : List Char :=
  ['i', 'f', ' ', '('] ++ (condition ++ [')', ' ', openBrace, '\n'])

/-- A condition without parentheses and slashes is what the parentheses of its head have in them. -/
theorem headElements_headLine (line : Atom) {condition : List Char} (hopen : '(' ∉ condition)
    (hclose : ')' ∉ condition) (hslash : '/' ∉ condition) :
    headElements line (headLine condition) =
      (elements line condition).map fun tokens =>
        .symbol .openParen :: (tokens ++ [.symbol .closeParen, .symbol .openBrace]) := by
  have hstrip : Source.stripComment (headLine condition) = headLine condition := by
    have hslashes : ¬ Source.slashes <:+: headLine condition := by
      intro hwithin
      have hmem : '/' ∈ headLine condition := hwithin.subset (by simp [Source.slashes])
      simp [headLine, openBrace, hslash] at hmem
    have hends : headLine condition = ['i', 'f', ' ', '('] ++ (condition ++ [')', ' ']) ++
        [openBrace, '\n'] := by
      simp [headLine]
    have hcode := Source.codeFrom_of_no_slashes hslashes false false
    rw [hends] at hcode ⊢
    exact Source.stripComment_eq_self hcode (by decide)
  have hparens : inParens false (headLine condition) = condition := by
    have hfront : ∀ rest, inParens false (['i', 'f', ' ', '('] ++ rest) = inParens true rest :=
      fun _ => rfl
    rw [headLine, hfront, inParens_append hopen hclose]
    simp [inParens, openBrace]
  have hcount : (headLine condition).count '(' = 1 := by
    simp [headLine, List.count_append, List.count_eq_zero.mpr hopen, openBrace]
  have hcontains : (headLine condition).contains ')' = true := by
    simp [headLine]
  have hbrace : (headLine condition).contains openBrace = true := by
    simp [headLine]
  simp only [headElements, hstrip, hparens, hcount, hcontains, hbrace, if_true]
  cases elements line condition with
  | error fault => rfl
  | ok tokens => simp [Except.map]

end Condition

/-! ## Operands -/

/-- An identifier or a decimal integer of any length. -/
inductive Comparand where
  | named (name : Identifier)
  | integer (negative : Bool) (numeral : Flat.Numeral)

namespace Comparand

/-- The characters of an operand. -/
def text : Comparand → List Char
  | .named name => name.text
  | .integer negative numeral => if negative then '-' :: numeral.digits else numeral.digits

/-- The node of an operand.  A numeral with too many digits counts as a name. -/
def node (operand : Comparand) : Node :=
  match operand with
  | .named name => .ofName name.atom
  | .integer _ numeral =>
      if numeral.digits.length ≤ maxDigits then .ofLiteral .number (.ofChars operand.text)
      else .ofName (.ofChars operand.text)

theorem mem_text {operand : Comparand} {c : Char} (hc : c ∈ operand.text) :
    c = '-' ∨ Flat.isPart c = true := by
  cases operand with
  | named name => exact Or.inr (name.isPart_of_mem c hc)
  | integer negative numeral =>
      cases negative with
      | false => exact Or.inr (numeral.isPart_of_mem c hc)
      | true => exact (List.mem_cons.mp hc).imp_right (numeral.isPart_of_mem c)

/-- A mark other than the minus sign does not stand in an operand. -/
theorem not_mem_text (operand : Comparand) {mark : Char} (hminus : mark ≠ '-')
    (hmark : Flat.isPart mark = false) :
    mark ∉ operand.text := by
  intro hmem
  rcases mem_text hmem with rfl | hpart
  · exact hminus rfl
  · rw [hpart] at hmark
    exact absurd hmark (by decide)

theorem text_ne_nil (operand : Comparand) : operand.text ≠ [] := by
  cases operand with
  | named name => exact List.cons_ne_nil _ _
  | integer negative numeral =>
      cases negative with
      | false => exact numeral.nonempty
      | true => exact List.cons_ne_nil _ _

theorem isOperandChar_of_mem (operand : Comparand) :
    ∀ c ∈ operand.text, Condition.isOperandChar c = true := by
  intro c hc
  have hother : ∀ mark, mark ≠ '-' → Flat.isPart mark = false → c ≠ mark := by
    rintro mark hminus hmark rfl
    exact operand.not_mem_text hminus hmark hc
  have hrelation : Condition.opensRelation c = false := by
    simp [Condition.opensRelation, hother '=' (by decide) (by decide),
      hother '!' (by decide) (by decide), hother '>' (by decide) (by decide),
      hother '<' (by decide) (by decide)]
  simp [Condition.isOperandChar, hrelation, hother ' ' (by decide) (by decide)]

theorem integer?_text (negative : Bool) (numeral : Flat.Numeral) :
    (integer? (Comparand.integer negative numeral).text).isSome =
      decide (numeral.digits.length ≤ maxDigits) := by
  have hblank : ∀ c ∈ numeral.digits, isNumeralBlank c = false := fun c hc =>
    isNumeralBlank_of_isDigit (numeral.decimal c hc)
  by_cases hshort : numeral.digits.length ≤ maxDigits
  · cases negative with
    | false => simp [text, hshort, integer?_of_isDigit numeral.nonempty numeral.decimal hshort]
    | true => simp [text, hshort, integer?_of_minus numeral.nonempty numeral.decimal hshort]
  · have hlong : maxDigits < (numeral.digits.map fun c => c.toNat - 48).length := by
      rw [List.length_map]
      omega
    have hdigits := digitsOf?_of_isDigit_of_ne_nil numeral.nonempty numeral.decimal
    cases negative with
    | false =>
        simp only [text, integer?, Bool.false_eq_true, if_false, trim_eq_self hblank,
          splitSign_of_isDigit numeral.decimal, hdigits, if_pos hlong, hshort, decide_false,
          Option.isSome_none]
    | true =>
        have htrim : trim isNumeralBlank ('-' :: numeral.digits) = '-' :: numeral.digits := by
          apply trim_eq_self
          intro c hc
          rcases List.mem_cons.mp hc with rfl | hc
          · decide
          · exact hblank c hc
        simp only [text, integer?, if_true, htrim, splitSign, hdigits, if_pos hlong, hshort,
          decide_false, Option.isSome_none]

/-- The token of an operand is read to its node. -/
theorem operand_operandToken (operand : Comparand) :
    ∃ kind, Condition.operandToken operand.text = .of kind (.ofChars operand.text) ∧
      Reader.operand kind (.ofChars operand.text) = operand.node := by
  have hpoint : ∀ operand : Comparand, isPointNumeral operand.text = false := by
    intro operand
    have hdot : '.' ∉ operand.text := operand.not_mem_text (by decide) (by decide)
    simp [isPointNumeral, hdot]
  cases operand with
  | named name =>
      have hname : isPointNumeral name.text = false := hpoint (.named name)
      refine ⟨.identifier, ?_, rfl⟩
      simp only [Condition.operandToken, text, hname, name.integer?_text, Option.isSome_none,
        Bool.false_eq_true, if_false]
  | integer negative numeral =>
      simp only [Condition.operandToken, hpoint, integer?_text, node]
      by_cases hshort : numeral.digits.length ≤ maxDigits
      · exact ⟨.number, by simp [hshort], by simp [hshort, Reader.operand]⟩
      · exact ⟨.identifier, by simp [hshort], by simp [hshort, Reader.operand]⟩

end Comparand

/-! ## Scanning a conditional -/

/-- A line that opens with the word of a statement is refused with its statement. -/
theorem Scan.scanLine_opener_error {names : Names} {line : SourceLine} (opener : Opener)
    {rest : List Char} {blocks : Blocks} {fault : Fault} (hrest : rest.head? ≠ some '\n')
    (hcontent : line.content = String.ofList (opener.spelling ++ rest))
    (hnames : beginningTokens names opener = [])
    (helements : opener.elements line rest = .error fault) :
    scanLine names blocks line = ⟨0, .error fault⟩ := by
  rw [scanLine, hcontent, String.toList_ofList, run_opener opener hrest rfl,
    recognise_first opener rest (by simp) (by simp [hnames]), helements]
  rfl

namespace Comparison

variable (left right : Comparand) (operator : Operator)

/-- The text of a condition. -/
def conditionText : List Char :=
  left.text ++ ' ' :: (operator.text ++ ' ' :: right.text)

/-- The lines of a conditional with empty blocks. -/
def lines : List String :=
  [Condition.headLine (conditionText left right operator), Flat.elseLine,
    Flat.endLine].map String.ofList

/-- The tokens of the head of a conditional behind its keyword. -/
def headTokens (relation : Relation) : List Token :=
  [.symbol .openParen, Condition.operandToken left.text,
    .of (.relation relation) (.ofChars operator.spelled), Condition.operandToken right.text,
    .symbol .closeParen, .symbol .openBrace]

theorem not_mem_conditionText {mark : Char} (hminus : mark ≠ '-') (hspace : mark ≠ ' ')
    (hmark : Flat.isPart mark = false) (hrelation : Condition.opensRelation mark = false) :
    mark ∉ conditionText left right operator := by
  have hoperator : mark ∉ operator.text := by
    intro hmem
    rw [operator.opens mark hmem] at hrelation
    exact absurd hrelation (by decide)
  simp [conditionText, left.not_mem_text hminus hmark, right.not_mem_text hminus hmark, hoperator,
    hspace]

theorem elements_conditionText (line : Atom) :
    Condition.elements line (conditionText left right operator) =
      match Condition.relation? operator.spelled with
      | none => .error (.rejected (operator.refusal line))
      | some relation =>
          .ok [Condition.operandToken left.text,
            .of (.relation relation) (.ofChars operator.spelled),
            Condition.operandToken right.text] := by
  rw [Condition.elements, conditionText,
    Condition.elementsFrom_left left.isOperandChar_of_mem (List.cons_ne_nil _ _),
    Condition.elementsFrom_space, Condition.elementsFrom_operator,
    Condition.elementsFrom_right operator.spelled_ne_nil right.text_ne_nil
      right.isOperandChar_of_mem]
  cases Condition.relation? operator.spelled <;> rfl

private theorem headElements_conditionText (line : Atom) :
    Condition.headElements line (Condition.headLine (conditionText left right operator)) =
      match Condition.relation? operator.spelled with
      | none => .error (.rejected (operator.refusal line))
      | some relation => .ok (headTokens left right operator relation) := by
  rw [Condition.headElements_headLine, elements_conditionText]
  · cases Condition.relation? operator.spelled <;> rfl
  · exact not_mem_conditionText left right operator (by decide) (by decide) (by decide) (by decide)
  · exact not_mem_conditionText left right operator (by decide) (by decide) (by decide) (by decide)
  · exact not_mem_conditionText left right operator (by decide) (by decide) (by decide) (by decide)

theorem link_lines :
    SourceLine.link (lines left right operator) =
      [{ number := .integer 1,
         content := String.ofList (Condition.headLine (conditionText left right operator)),
         next := some 2 },
        { number := .integer 2, content := String.ofList Flat.elseLine, previous := some 1,
          next := some 3 },
        { number := .integer 3, content := String.ofList Flat.endLine, previous := some 2 }] := by
  have hhead : String.ofList (Condition.headLine (conditionText left right operator)) ≠ "" := by
    simp [Condition.headLine]
  have helse : String.ofList Flat.elseLine ≠ "" := by simp [Flat.elseLine]
  have hend : String.ofList Flat.endLine ≠ "" := by simp [Flat.endLine]
  simp only [SourceLine.link, lines, List.map_cons, List.map_nil, SourceLine.linkFrom,
    SourceLine.follower, hhead, helse, hend, if_false]
  rfl

variable {left right operator} {first : SourceLine}

theorem elements_head
    (hcontent : first.content =
      String.ofList (Condition.headLine (conditionText left right operator))) (rest : List Char) :
    Opener.cond.elements first rest =
      match Condition.relation? operator.spelled with
      | none => .error (.rejected (operator.refusal first.number))
      | some relation => .ok (headTokens left right operator relation) := by
  rw [Opener.elements, hcontent, String.toList_ofList, headElements_conditionText]

/-- A spelling that means no comparison is refused. -/
theorem lex_refused (hrelation : Condition.relation? operator.spelled = none) :
    lex {} (lines left right operator) =
      { fault := some (.rejected (operator.refusal (.integer 1))) } := by
  rw [lex, link_lines]
  generalize hfirst : SourceLine.mk (.integer 1) _ none (some 2) = first
  have hnumber : first.number = .integer 1 := by rw [← hfirst]
  have hcontent : first.content =
      String.ofList (Condition.headLine (conditionText left right operator)) := by
    rw [← hfirst]
  have helements := elements_head hcontent
    (' ' :: '(' :: (conditionText left right operator ++ [')', ' ', openBrace, '\n']))
  rw [hrelation, hnumber] at helements
  have hscan : Scan.scanLine {} {} first =
      ⟨0, .error (.rejected (operator.refusal (.integer 1)))⟩ :=
    Scan.scanLine_opener_error .cond (by simp) hcontent
      (Flat.allNames_empty.beginningTokens_eq_nil .cond) helements
  rw [Lexed.scan_cons_error (congrArg Scan.Result.outcome hscan), hscan]
  rfl

/-- A spelling that means a comparison is accepted. -/
theorem lex_accepted {relation : Relation}
    (hrelation : Condition.relation? operator.spelled = some relation) :
    ∃ first second third : SourceLine,
      lex {} (lines left right operator) =
        { lines := [⟨first, .keyword .cond :: headTokens left right operator relation⟩,
            ⟨second, [.symbol .closeBrace, .keyword .alt]⟩, ⟨third, [.symbol .closeBrace]⟩] } := by
  rw [lex, link_lines]
  generalize hfirst : SourceLine.mk (.integer 1) _ none (some 2) = first
  generalize hsecond : SourceLine.mk (.integer 2) _ (some 1) (some 3) = second
  generalize hthird : SourceLine.mk (.integer 3) _ (some 2) none = third
  have hcontent : first.content =
      String.ofList (Condition.headLine (conditionText left right operator)) := by
    rw [← hfirst]
  have helements := elements_head hcontent
    (' ' :: '(' :: (conditionText left right operator ++ [')', ' ', openBrace, '\n']))
  rw [hrelation] at helements
  have hhead : Scan.scanLine {} {} first =
      ⟨0, .ok ⟨.keyword .cond :: headTokens left right operator relation, {},
        ⟨true, false, false⟩⟩⟩ :=
    Scan.scanLine_opener .cond 0 (by simp) hcontent
      (Flat.allNames_empty.beginningTokens_eq_nil .cond) helements
  have helse := @Flat.scanLine_elseLine _ Flat.allNames_empty second (by rw [← hsecond])
  have hend := @Flat.scanLine_endLine _ Flat.allNames_empty third (by rw [← hthird])
  have hnames : ({} : Names).append {} = {} := rfl
  refine ⟨first, second, third, ?_⟩
  rw [Lexed.scan_cons_ok (congrArg Scan.Result.outcome hhead), hhead, hnames,
    Lexed.scan_cons_ok (congrArg Scan.Result.outcome helse), helse, hnames,
    Lexed.scan_cons_ok (congrArg Scan.Result.outcome hend), hend]
  rfl

/-! ## Reading a conditional -/

/-- The two tables differ in one entry. -/
theorem relationOf_spelled {spelled : List Char} {relation : Relation}
    (hrelation : Condition.relation? spelled = some relation) :
    Reader.relationOf (.ofChars spelled) =
      if relation = .smallerEqual then .error (.unknownKey "=<") else .ok relation := by
  unfold Condition.relation? at hrelation
  split at hrelation <;> cases hrelation <;> rfl

private theorem effect_headTokens (line : SourceLine) {relation : Relation}
    (hrelation : Condition.relation? operator.spelled = some relation) :
    Reader.effect ⟨line, .keyword .cond :: headTokens left right operator relation⟩ =
      if relation = .smallerEqual then .error (.unknownKey "=<")
      else .ok (.conditional (.compare left.node right.node (.relation relation))) := by
  obtain ⟨leftKind, hleft, hleftNode⟩ := left.operand_operandToken
  obtain ⟨rightKind, hright, hrightNode⟩ := right.operand_operandToken
  have hcondition : Reader.condition (.keyword .cond :: headTokens left right operator relation) =
      (Reader.relationOf (.ofChars operator.spelled)).map fun relation =>
        .compare left.node right.node (.relation relation) := by
    rw [headTokens, hleft, hright, ← hleftNode, ← hrightNode]
    cases hrelationOf : Reader.relationOf (.ofChars operator.spelled) <;>
      simp [Reader.condition, Token.entryAt, Token.valueAt, Token.tokenAt, itemAt?, Token.entry,
        bind, Except.bind, pure, Except.pure, Except.map, Token.keyword, Token.symbol, hrelationOf]
  rw [show Keyword.cond = Opener.cond.keyword from rfl, Reader.effect_opener]
  rw [Reader.openerEffect, show Opener.cond.keyword = Keyword.cond from rfl, hcondition,
    relationOf_spelled hrelation]
  split <;> rfl

/-- A comparison that is scanned is read, but for one of the six. -/
theorem read_accepted {relation : Relation}
    (hrelation : Condition.relation? operator.spelled = some relation) :
    Reader.read (lex {} (lines left right operator)).lines =
      if relation = .smallerEqual then .error (.unknownKey "=<")
      else .ok [.ifElse (.compare left.node right.node (.relation relation)) (.list [])
        (.list [])] := by
  obtain ⟨first, second, third, hlex⟩ := @lex_accepted left right operator relation hrelation
  have heffect := @effect_headTokens left right operator first relation hrelation
  rw [hlex, Reader.read, List.foldlM_cons, Reader.readLine_eq, heffect]
  split <;> rfl

end Comparison

/-! ## The comparison that is never read -/

/-- A token that a reading does not take for "smaller or equal". -/
def Token.NotSmallerEqual (token : Token) : Prop :=
  ∀ kind value, token = .of kind value → Reader.relationOf value ≠ .ok .smallerEqual

namespace Condition

private theorem ofChars_of_relationOf {text : List Char}
    (htext : Reader.relationOf (.ofChars text) = .ok .smallerEqual) :
    text = ['<', '='] := by
  have hspelled : Atom.ofChars text = .text "<=" := by
    unfold Reader.relationOf at htext
    split at htext
    case h_6 hvalue => exact hvalue
    all_goals cases htext
  injection hspelled with hspelled
  rw [← String.toList_ofList (l := text), hspelled]
  rfl

theorem notSmallerEqual_ofChars {kind : TokenKind} {text : List Char} (htext : text ≠ ['<', '=']) :
    (Token.of kind (.ofChars text)).NotSmallerEqual := by
  rintro _ _ ⟨⟩ hrelation
  exact htext (ofChars_of_relationOf hrelation)

theorem notSmallerEqual_operandToken {text : List Char} (htext : text ≠ ['<', '=']) :
    (operandToken text).NotSmallerEqual := by
  unfold operandToken
  split
  · exact notSmallerEqual_ofChars htext
  · split <;> exact notSmallerEqual_ofChars htext

/-- The first two tokens of a condition: an operand without characters of a comparison, and a
comparison that the scan knows. -/
theorem notSmallerEqual_elementsFrom {line : Atom} {left text : List Char} {elements : List Token}
    (hleft : '<' ∉ left) (helements : elementsFrom line [] left [] text = .ok elements) :
    ∀ token ∈ elements.take 2, token.NotSmallerEqual := by
  have hleftText : left ≠ ['<', '='] := by
    rintro rfl
    exact hleft (by simp)
  induction text generalizing left with
  | nil =>
      cases helements
      exact fun _ htoken => absurd htoken List.not_mem_nil
  | cons c rest ih =>
      rw [elementsFrom] at helements
      split at helements
      · exact ih hleft helements hleftText
      · split at helements
        · -- The comparison is found, and what stands behind its token does not matter.
          split at helements
          · cases helements
          · rename_i spelled hspelled
            split at helements
            · cases helements
            · rename_i relation hrelation
              obtain ⟨after, -, rfl⟩ := exists_of_map_eq_ok helements
              have hother : spelled ≠ ['<', '='] := by
                rintro rfl
                cases hrelation
              simp only [List.take_succ_cons, List.take_zero, List.forall_mem_cons,
                List.not_mem_nil, false_imp_iff, implies_true, and_true]
              exact ⟨notSmallerEqual_operandToken hleftText, notSmallerEqual_ofChars hother⟩
        · rename_i hc
          split at helements
          · rename_i htwo
            exact absurd htwo (by simp)
          · simp only [List.isEmpty_nil, if_true] at helements
            split at helements
            · cases helements
              simp only [List.take_succ_cons, List.take_nil, List.forall_mem_cons, List.not_mem_nil,
                false_imp_iff, implies_true, and_true]
              exact notSmallerEqual_operandToken (by decide)
            · have hmore : '<' ∉ left ++ [c] := by
                intro hmem
                rcases List.mem_append.mp hmem with hmem | hmem
                · exact hleft hmem
                · rw [← List.mem_singleton.mp hmem] at hc
                  exact hc (by decide)
              refine ih hmore helements ?_
              rintro heq
              exact hmore (by rw [heq]; simp)

private theorem inParens_eq_nil {text : List Char} (htext : '(' ∉ text) :
    inParens false text = [] := by
  induction text with
  | nil => rfl
  | cons c rest ih =>
      rw [List.mem_cons, not_or] at htext
      rw [inParens, if_neg (Ne.symm htext.1)]
      split <;> exact ih htext.2

theorem notSmallerEqual_symbol (symbol : Symbol) : (Token.symbol symbol).NotSmallerEqual := by
  rintro _ _ ⟨⟩ hrelation
  cases symbol <;> cases hrelation

/-- The place where a reading looks for the comparison: a parenthesis, one of the first two tokens
of the condition, or what closes the head. -/
theorem notSmallerEqual_headElements {line : Atom} {content : List Char} {elements : List Token}
    {token : Token} (helements : headElements line content = .ok elements)
    (htoken : elements[2]? = some token) :
    token.NotSmallerEqual := by
  obtain ⟨condition, hcondition, rfl⟩ := exists_of_map_eq_ok helements
  have hclosing : ∀ closed opened : Bool,
      ∀ token ∈ (if closed then [Token.symbol .closeParen] else []) ++
          (if opened then [.symbol .openBrace] else []),
        token.NotSmallerEqual := by
    intro closed opened token hmem
    cases closed <;> cases opened <;>
      simp only [if_true, if_false, Bool.false_eq_true, List.nil_append, List.append_nil,
        List.singleton_append, List.mem_cons, List.not_mem_nil, or_false] at hmem
    · exact hmem ▸ notSmallerEqual_symbol _
    · exact hmem ▸ notSmallerEqual_symbol _
    · rcases hmem with rfl | rfl <;> exact notSmallerEqual_symbol _
  rw [List.append_assoc, List.append_assoc] at htoken
  generalize hclosers :
    (if (Source.stripComment content).contains ')' then [Token.symbol .closeParen] else []) ++
      (if (Source.stripComment content).contains openBrace then [.symbol .openBrace] else []) =
        closers at htoken
  have hclosers : ∀ token ∈ closers, token.NotSmallerEqual := hclosers ▸ hclosing _ _
  by_cases hparen : '(' ∈ Source.stripComment content
  · have hcount : 0 < (Source.stripComment content).count '(' := List.count_pos_iff.mpr hparen
    generalize (Source.stripComment content).count '(' = count at hcount htoken
    rw [List.getElem?_append, List.length_replicate] at htoken
    split at htoken
    · exact List.eq_of_mem_replicate (List.mem_of_getElem? htoken) ▸ notSmallerEqual_symbol _
    · rw [List.getElem?_append] at htoken
      split at htoken
      · -- At least one parenthesis stands in front, so this is the first or the second token of the
        -- condition.
        apply notSmallerEqual_elementsFrom List.not_mem_nil hcondition
        refine List.mem_of_getElem? (i := 2 - count) ?_
        rw [List.getElem?_take_of_lt (by omega), htoken]
      · exact hclosers token (List.mem_of_getElem? htoken)
  · rw [inParens_eq_nil hparen] at hcondition
    cases hcondition
    rw [List.count_eq_zero.mpr hparen, List.replicate_zero, List.nil_append, List.nil_append]
      at htoken
    exact hclosers token (List.mem_of_getElem? htoken)

end Condition

namespace Reader

/-- A condition that is read from a scanned line does not compare by "smaller or equal". -/
theorem condition_ne_smallerEqual {line : SourceLine} {rest : List Char} {elements : List Token}
    (helements : Opener.cond.elements line rest = .ok elements) (left right : Node) :
    condition (.keyword .cond :: elements) ≠
      .ok (.compare left right (.relation .smallerEqual)) := by
  intro hcondition
  obtain ⟨_, -, hcondition⟩ := exists_of_bind_eq_ok hcondition
  obtain ⟨_, -, hcondition⟩ := exists_of_bind_eq_ok hcondition
  obtain ⟨spelling, hspelling, hcondition⟩ := exists_of_bind_eq_ok hcondition
  obtain ⟨relation, hrelation, hcondition⟩ := exists_of_bind_eq_ok hcondition
  cases hcondition
  obtain ⟨entry, hentry, rfl⟩ := exists_of_map_eq_ok hspelling
  obtain ⟨token, htoken, hentry⟩ := exists_of_bind_eq_ok hentry
  cases token with
  | blank => cases hentry
  | of kind value =>
      cases hentry
      have hplace : elements[2]? = some (.of kind value) := by
        have hindex : itemAt? (.keyword .cond :: elements) 3 = elements[2]? := rfl
        rw [Token.tokenAt, hindex] at htoken
        split at htoken
        · rename_i found hfound
          cases htoken
          exact hfound
        · cases htoken
      exact Condition.notSmallerEqual_headElements helements hplace _ _ rfl hrelation

/-- No program that is read from a source compares by "smaller or equal". -/
theorem smallerEqual_not_mem {names : Names} {source : List String} {statements : List Node}
    (hread : read (lex names source).lines = .ok statements) (left right : Node) :
    Node.head (.compare left right (.relation .smallerEqual)) ∉ Node.preorderAll statements := by
  intro hmem
  rw [preorderAll_of_read hread, List.mem_map] at hmem
  obtain ⟨position, -, hhead⟩ := hmem
  unfold headAt at hhead
  split at hhead
  · rename_i line hline
    have heffect := effect_of_headOf hhead
    have hopener := opener?_of_conditional heffect
    have hsound : Scan.Sound line.line line.tokens := Lexed.sound_of_mem (mem_of_position hline)
    obtain ⟨rest, elements, helements, htokens⟩ := elements_of_opener? hsound hopener
    rw [effect_of_opener? hopener, htokens] at heffect
    obtain ⟨test, htest, heq⟩ := exists_of_map_eq_ok heffect
    cases heq
    exact condition_ne_smallerEqual helements left right htest
  · cases hhead

end Reader

/-- The spellings of the six comparisons. -/
def Comparison.spellings : List (List Char × Relation) :=
  [("==".toList, .equal), ("!=".toList, .notEqual), (">".toList, .greater),
    (">=".toList, .greaterEqual), ("<".toList, .smaller), ("=<".toList, .smallerEqual)]

theorem Comparison.mem_spellings_iff {spelling : List Char} {relation : Relation} :
    (spelling, relation) ∈ Comparison.spellings ↔ Condition.relation? spelling = some relation := by
  constructor
  · intro hmem
    simp only [Comparison.spellings, List.mem_cons, Prod.mk.injEq, List.not_mem_nil, or_false]
      at hmem
    rcases hmem with ⟨rfl, rfl⟩ | ⟨rfl, rfl⟩ | ⟨rfl, rfl⟩ | ⟨rfl, rfl⟩ | ⟨rfl, rfl⟩ | ⟨rfl, rfl⟩ <;>
      rfl
  · intro hrelation
    unfold Condition.relation? at hrelation
    split at hrelation <;> cases hrelation <;> decide

/-- **Five of six comparisons are read.**  Let a conditional with empty blocks compare two operands,
each an identifier or a decimal integer, with characters of comparisons between them.  If the first
two of these are not a spelling of a comparison, then the head is refused.  If they are, then the
three lines are scanned, and they are read as the conditional that compares the two operands so,
except for "smaller or equal": its spelling is not known to the reading.  No source at all gives a
program that compares by it. -/
theorem comparison_read (left right : Comparand) (operator : Operator) :
    ((∀ relation, (operator.spelled, relation) ∉ Comparison.spellings) →
        lex {} (Comparison.lines left right operator) =
          { fault := some (.rejected (operator.refusal (.integer 1))) }) ∧
      (∀ relation, (operator.spelled, relation) ∈ Comparison.spellings →
        (lex {} (Comparison.lines left right operator)).fault = none ∧
          Reader.read (lex {} (Comparison.lines left right operator)).lines =
            if relation = .smallerEqual then .error (.unknownKey "=<")
            else .ok [.ifElse (.compare left.node right.node (.relation relation)) (.list [])
              (.list [])]) ∧
      ∀ names source statements, Reader.read (lex names source).lines = .ok statements →
        ∀ left right,
          Node.head (.compare left right (.relation .smallerEqual)) ∉
            Node.preorderAll statements := by
  refine ⟨fun hnone => ?_, fun relation hspelling => ?_,
    fun names source statements => Reader.smallerEqual_not_mem⟩
  · refine Comparison.lex_refused (Option.eq_none_iff_forall_ne_some.mpr
      fun relation hrelation => ?_)
    exact hnone relation (Comparison.mem_spellings_iff.mpr hrelation)
  · have hrelation := Comparison.mem_spellings_iff.mp hspelling
    refine ⟨?_, Comparison.read_accepted hrelation⟩
    obtain ⟨first, second, third, hlex⟩ :=
      @Comparison.lex_accepted left right operator relation hrelation
    rw [hlex]

/-- A name and a negative integer, with two spellings that the scan tells apart. -/
theorem comparison_read_bounds :
    (">=".toList, .greaterEqual) ∈ Comparison.spellings ∧
      (lex {} ["if (a >= -7) \x7b\n", "\x7d else \x7b\n", "\x7d\n"]).fault = none ∧
      Reader.read (lex {} ["if (a >= -7) \x7b\n", "\x7d else \x7b\n", "\x7d\n"]).lines =
        .ok [.ifElse
          (.compare (.ofName (.text "a")) (.ofLiteral .number (.text "-7"))
            (.relation .greaterEqual))
          (.list []) (.list [])] ∧
      (∀ relation, ("<=".toList, relation) ∉ Comparison.spellings) ∧
      (lex {} ["if (a <= -7) \x7b\n", "\x7d else \x7b\n", "\x7d\n"]).fault =
        some (.rejected (.comparison "<=" (.integer 1))) := by
  let left : Comparand := .named ⟨'a', [], by decide, by simp⟩
  let right : Comparand := .integer true ⟨['7'], by decide, by simp⟩
  let known : Operator := ⟨'>', ['='], by simp [Condition.opensRelation]⟩
  let unknown : Operator := ⟨'<', ['='], by simp [Condition.opensRelation]⟩
  have hknown : (">=".toList, .greaterEqual) ∈ Comparison.spellings := by decide
  have hunknown : ∀ relation, ("<=".toList, relation) ∉ Comparison.spellings := by
    intro relation
    cases relation <;> decide
  obtain ⟨hfault, hread⟩ := (comparison_read left right known).2.1 .greaterEqual hknown
  have hrefused := (comparison_read left right unknown).1 hunknown
  exact ⟨hknown, hfault, hread, hunknown, congrArg Lexed.fault hrefused⟩

/-- A condition with `=<` is scanned without a fault, and its spelling is not known to the
reading. -/
theorem read_smallerEqual :
    (lex {} ["if (a =< b) \x7b\n", "\x7d else \x7b\n", "\x7d\n"]).fault = none ∧
      Reader.read (lex {} ["if (a =< b) \x7b\n", "\x7d else \x7b\n", "\x7d\n"]).lines =
        .error (.unknownKey "=<") :=
  ⟨rfl, rfl⟩

end LineCompiler
