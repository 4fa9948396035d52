import LineCompiler.Proofs.Flat.Spacing

/-!
# Conditions are read back

The head of a conditional has one pair of parentheses, and between them one comparison with spaces
on both sides.  The operands have no space and none of the characters that open a comparison, so
each character of the condition goes where it came from.  Spaces at the end of the condition are not
passed over: behind them the right operand is lost (`rightTokens`).
-/

namespace LineCompiler

namespace Condition

/-! ## Gathering operands -/

/-- The characters of an operand: they are gathered as they stand. -/
def isOperandChar (c : Char) : Bool :=
  c ≠ ' ' && !opensRelation c

variable {line : Atom} {left right : List Char}

theorem elementsFrom_space (spelled rest : List Char) :
    elementsFrom line spelled left right (' ' :: rest) =
      elementsFrom line spelled left right rest := by
  simp [elementsFrom]

theorem elementsFrom_left {text : List Char} (htext : ∀ c ∈ text, isOperandChar c = true)
    {rest : List Char} (hrest : rest ≠ []) :
    elementsFrom line [] left right (text ++ rest) =
      elementsFrom line [] (left ++ text) right rest := by
  induction text generalizing left with
  | nil => simp
  | cons c others ih =>
      have hc := htext c (List.mem_cons_self ..)
      simp only [isOperandChar, Bool.and_eq_true, Bool.not_eq_true', decide_eq_true_eq] at hc
      have hmore : others ++ rest ≠ [] := by simp [hrest]
      rw [List.cons_append, elementsFrom]
      simp only [hc, if_false, Bool.false_and, Bool.false_eq_true, List.isEmpty_nil, if_true,
        List.isEmpty_eq_false_iff.mpr hmore]
      rw [ih fun d hd => htext d (List.mem_cons_of_mem _ hd), List.append_assoc,
        List.singleton_append]

/-- Characters of the right operand are gathered, if more follows. -/
theorem elementsFrom_gather {spelled : List Char} (hspelled : spelled ≠ []) {text : List Char}
    (htext : ∀ c ∈ text, isOperandChar c = true) {rest : List Char} (hrest : rest ≠ []) :
    elementsFrom line spelled left right (text ++ rest) =
      elementsFrom line spelled left (right ++ text) rest := by
  induction text generalizing right with
  | nil => simp
  | cons c others ih =>
      have hc := htext c (List.mem_cons_self ..)
      simp only [isOperandChar, Bool.and_eq_true, Bool.not_eq_true', decide_eq_true_eq] at hc
      have hmore : others ++ rest ≠ [] := by simp [hrest]
      rw [List.cons_append, elementsFrom]
      simp only [hc, if_false, Bool.false_and, Bool.false_eq_true,
        List.isEmpty_eq_false_iff.mpr hspelled, List.isEmpty_eq_false_iff.mpr hmore]
      rw [ih fun d hd => htext d (List.mem_cons_of_mem _ hd), List.append_assoc,
        List.singleton_append]

theorem elementsFrom_right {spelled : List Char} (hspelled : spelled ≠ []) {text : List Char}
    (hne : text ≠ []) (htext : ∀ c ∈ text, isOperandChar c = true) :
    elementsFrom line spelled left right text = .ok [operandToken (right ++ text)] := by
  obtain ⟨others, last, rfl⟩ : ∃ others last, text = others ++ [last] :=
    ⟨_, _, (List.dropLast_concat_getLast hne).symm⟩
  have hlast := htext last (List.mem_append_right _ (List.mem_cons_self ..))
  simp only [isOperandChar, Bool.and_eq_true, Bool.not_eq_true', decide_eq_true_eq] at hlast
  rw [elementsFrom_gather hspelled (fun c hc => htext c (List.mem_append_left _ hc))
    (List.cons_ne_nil _ _), elementsFrom]
  simp [hlast, List.isEmpty_eq_false_iff.mpr hspelled]

/-! ## Parentheses -/

theorem inParens_append {text : List Char} (hopen : '(' ∉ text) (hclose : ')' ∉ text)
    (inside : Bool) (rest : List Char) :
    inParens inside (text ++ rest) = (if inside then text else []) ++ inParens inside rest := by
  induction text with
  | nil => simp
  | cons c others ih =>
      rw [List.mem_cons, not_or] at hopen hclose
      rw [List.cons_append, inParens]
      simp only [Ne.symm hopen.1, Ne.symm hclose.1, if_false, ih hopen.2 hclose.2]
      cases inside <;> rfl

end Condition

namespace Flat

open Text Number Condition

/-! ## Operands -/

theorem Operand.mem_text {operand : Operand} {c : Char} (hc : c ∈ operand.text) :
    c = '-' ∨ isPart c = true := by
  cases operand with
  | named name => exact Or.inr (name.isPart_of_mem c hc)
  | integer negative numeral short =>
      cases negative with
      | false => exact Or.inr (numeral.isPart_of_mem c hc)
      | true =>
          rcases List.mem_cons.mp hc with rfl | hc
          · exact Or.inl rfl
          · exact Or.inr (numeral.isPart_of_mem c hc)

/-- A mark other than the minus sign does not stand in an operand. -/
theorem Operand.not_mem_text {mark : Char} (hminus : mark ≠ '-') (hpart : isPart mark = false)
    (operand : Operand) : mark ∉ operand.text := by
  intro hmem
  rcases Operand.mem_text hmem with rfl | hc
  · exact hminus rfl
  · rw [hc] at hpart
    exact absurd hpart (by decide)

theorem Operand.text_ne_nil (operand : Operand) : operand.text ≠ [] := by
  cases operand with
  | named name => exact List.cons_ne_nil _ _
  | integer negative numeral short =>
      cases negative with
      | false => exact numeral.nonempty
      | true => exact List.cons_ne_nil _ _

theorem Operand.isOperandChar_of_mem (operand : Operand) :
    ∀ c ∈ operand.text, isOperandChar c = true := by
  intro c hc
  have hmark : ∀ mark ∈ [' ', '=', '!', '>', '<'], c ≠ mark := by
    rintro mark hmark rfl
    revert hc
    apply Operand.not_mem_text
    · rintro rfl
      exact absurd hmark (by decide)
    · have hmarks : ∀ mark ∈ [' ', '=', '!', '>', '<'], isPart mark = false := by simp [isPart]
      exact hmarks c hmark
  simp only [List.forall_mem_cons, List.not_mem_nil, false_imp_iff, implies_true] at hmark
  simp [isOperandChar, opensRelation, hmark]

/-- The token of an operand. -/
def Operand.token : Operand → Token
  | .named name => .of .identifier name.atom
  | .integer negative numeral short =>
      .of .number (.ofChars (Operand.integer negative numeral short).text)

theorem operandToken_text (operand : Operand) : operandToken operand.text = operand.token := by
  cases operand with
  | named name =>
      have hpoint : isPointNumeral name.text = false := by
        simp [isPointNumeral, name.not_mem_point]
      simp only [operandToken, Operand.text, name.integer?_text, hpoint, Option.isSome_none,
        Bool.false_eq_true, if_false, Operand.token, Name.atom]
  | integer negative numeral short =>
      have hinteger : (integer? (Operand.integer negative numeral short).text).isSome = true := by
        cases negative with
        | false =>
            simp only [Operand.text, Bool.false_eq_true, if_false,
              integer?_of_isDigit numeral.nonempty numeral.decimal short, Option.isSome_some]
        | true =>
            simp only [Operand.text, if_true,
              integer?_of_minus numeral.nonempty numeral.decimal short, Option.isSome_some]
      simp only [operandToken, hinteger, if_true, Operand.token]

/-! ## Comparisons -/

/-- The token of a comparison. -/
def Comparison.token (comparison : Comparison) : Token :=
  .of (.relation comparison.relation) (.ofChars comparison.text)

theorem Comparison.text_ne_nil (comparison : Comparison) : comparison.text ≠ [] := by
  cases comparison <;> decide

/-- A comparison with a space behind it is read whole. -/
theorem elementsFrom_comparison (line : Atom) (comparison : Comparison) (left rest : List Char) :
    elementsFrom line [] left [] (comparison.text ++ ' ' :: rest) =
      (elementsFrom line comparison.text left [] rest).map fun after =>
        operandToken left :: comparison.token :: after := by
  cases comparison <;>
    simp [Comparison.text, elementsFrom, opensRelation, Condition.spelling, relation?,
      Comparison.token, Comparison.relation]

theorem elementsFrom_blanks {line : Atom} {spelled left right : List Char} (count : Nat)
    (rest : List Char) :
    elementsFrom line spelled left right (blanks count ++ rest) =
      elementsFrom line spelled left right rest := by
  induction count with
  | zero => rfl
  | succ count ih => rw [blanks_succ, List.cons_append, elementsFrom_space, ih]

section Head

variable (line : Atom) (gaps : Gaps) (left : Operand) (comparison : Comparison) (right : Operand)

/-- The text in the parentheses of a head. -/
def conditionText : List Char :=
  blanks (gaps 2) ++ (left.text ++
    (blanks (1 + gaps 3) ++ (comparison.text ++
      (blanks (1 + gaps 4) ++ (right.text ++ blanks (gaps 5))))))

/-- The tokens of the right operand: it is lost behind spaces. -/
def rightTokens (gap : Nat) (right : Operand) : List Token :=
  if gap = 0 then [right.token] else []

theorem elements_conditionText :
    Condition.elements line (conditionText gaps left comparison right) =
      .ok (left.token :: comparison.token :: rightTokens (gaps 5) right) := by
  have hright : elementsFrom line comparison.text left.text [] (right.text ++ blanks (gaps 5)) =
      .ok (rightTokens (gaps 5) right) := by
    cases gaps 5 with
    | zero =>
        rw [blanks_zero, List.append_nil,
          elementsFrom_right comparison.text_ne_nil right.text_ne_nil right.isOperandChar_of_mem,
          List.nil_append, operandToken_text, rightTokens, if_pos rfl]
    | succ count =>
        have hblanks :=
          @elementsFrom_blanks line comparison.text left.text right.text (count + 1) []
        rw [elementsFrom_gather comparison.text_ne_nil right.isOperandChar_of_mem
          (by simp [blanks_succ]), List.nil_append, ← List.append_nil (blanks (count + 1)), hblanks]
        rfl
  rw [Condition.elements, conditionText, elementsFrom_blanks,
    elementsFrom_left left.isOperandChar_of_mem (by simp [blanks_append_cons]), elementsFrom_blanks,
    blanks_append_cons, elementsFrom_comparison, elementsFrom_blanks, List.nil_append, hright]
  simp only [operandToken_text, Except.map]

/-! ## The whole head -/

theorem headRow_eq :
    rowLine gaps (headRow left comparison right) =
      (blanks (gaps 0) ++ (Opener.cond.spelling ++ blanks (1 + gaps 1))) ++ '(' ::
        (conditionText gaps left comparison right ++ ')' ::
          (blanks (1 + gaps 6) ++ [openBrace, '\n'])) := by
  simp [headRow, rowLine_cons, rowLine_nil, conditionText]

theorem not_mem_conditionText (mark : Char) (hmark : isPart mark = false)
    (hothers : mark ∉ ['-', ' ', '=', '!', '>', '<']) :
    mark ∉ conditionText gaps left comparison right := by
  have hminus : mark ≠ '-' := fun heq => hothers (by simp [heq])
  have hspace : ∀ count, mark ∉ blanks count :=
    fun count hmem => hothers (by simp [eq_of_mem_blanks hmem])
  have hcomparison : mark ∉ comparison.text := by
    intro hmem
    apply hothers
    cases comparison <;> simp_all [Comparison.text]
  simp [conditionText, left.not_mem_text hminus hmark, right.not_mem_text hminus hmark,
    hcomparison, hspace]

/-- What stands around the parentheses of a head. -/
theorem not_mem_headEnds (mark : Char) (hmark : mark ∉ [' ', 'i', 'f']) (front back : Nat) :
    mark ∉ blanks front ++ (Opener.cond.spelling ++ blanks back) := by
  intro hmem
  rcases List.mem_append.mp hmem with hblank | hmem
  · exact hmark (by simp [eq_of_mem_blanks hblank])
  · rcases List.mem_append.mp hmem with hletter | hblank
    · exact hmark (List.mem_cons_of_mem _ hletter)
    · exact hmark (by simp [eq_of_mem_blanks hblank])

private theorem stripComment_headRow :
    Source.stripComment (rowLine gaps (headRow left comparison right)) =
      rowLine gaps (headRow left comparison right) := by
  have hslashes : ¬ Source.slashes <:+: rowLine gaps (headRow left comparison right) := by
    intro hwithin
    have hslash : '/' ∈ rowLine gaps (headRow left comparison right) :=
      hwithin.subset (by simp [Source.slashes])
    have hfront := not_mem_headEnds '/' (by decide) (gaps 0) (1 + gaps 1)
    have hcondition := not_mem_conditionText gaps left comparison right '/' (by decide) (by decide)
    have hback : '/' ∉ blanks (1 + gaps 6) := fun hmem => absurd (eq_of_mem_blanks hmem) (by decide)
    rw [headRow_eq] at hslash
    rcases List.mem_append.mp hslash with hmem | hmem
    · exact hfront hmem
    · simp only [List.mem_cons, List.mem_append, hcondition, hback, false_or] at hmem
      exact absurd hmem (by decide)
  have hcode := Source.codeFrom_of_no_slashes hslashes false false
  obtain ⟨front, hfront⟩ :=
    exists_rowLine_concat gaps (headRow left comparison right).dropLast openBrace 1
  rw [show rowLine gaps (headRow left comparison right) = front ++ [openBrace, '\n'] from hfront]
    at hcode ⊢
  exact Source.stripComment_eq_self hcode (by decide)

private theorem inParens_headRow :
    inParens false (rowLine gaps (headRow left comparison right)) =
      conditionText gaps left comparison right := by
  have hopen := not_mem_conditionText gaps left comparison right '(' (by decide) (by decide)
  have hclose := not_mem_conditionText gaps left comparison right ')' (by decide) (by decide)
  have hblank : ∀ mark, mark ≠ ' ' → mark ∉ blanks (1 + gaps 6) :=
    fun mark hmark hmem => hmark (eq_of_mem_blanks hmem)
  have hopened : ∀ rest, inParens false ('(' :: rest) = inParens true rest := fun _ => rfl
  have hclosed : ∀ rest, inParens true (')' :: rest) = inParens false rest := fun _ => rfl
  rw [headRow_eq,
    inParens_append (not_mem_headEnds '(' (by decide) _ _) (not_mem_headEnds ')' (by decide) _ _),
    hopened, inParens_append hopen hclose, hclosed,
    inParens_append (hblank '(' (by decide)) (hblank ')' (by decide))]
  simp [inParens, openBrace]

/-- The tokens of the head of a conditional behind its keyword, with the right operand that is
read. -/
def headTokensRead (gap : Nat) (left : Operand) (comparison : Comparison) (right : Operand) :
    List Token :=
  .symbol .openParen :: left.token :: comparison.token ::
    (rightTokens gap right ++ [.symbol .closeParen, .symbol .openBrace])

/-- **Conditions are read**, with any spaces between their elements. -/
theorem headElements_headRow :
    headElements line (rowLine gaps (headRow left comparison right)) =
      .ok (headTokensRead (gaps 5) left comparison right) := by
  have hopen := not_mem_conditionText gaps left comparison right '(' (by decide) (by decide)
  have hfront := not_mem_headEnds '(' (by decide) (gaps 0) (1 + gaps 1)
  have hback : '(' ∉ blanks (1 + gaps 6) := fun hmem => absurd (eq_of_mem_blanks hmem) (by decide)
  have hcount : (rowLine gaps (headRow left comparison right)).count '(' = 1 := by
    rw [headRow_eq, List.count_append, List.count_eq_zero.mpr hfront, List.count_cons_self,
      List.count_append, List.count_eq_zero.mpr hopen, List.count_cons_of_ne (by decide),
      List.count_append, List.count_eq_zero.mpr hback]
    rfl
  have hclose : (rowLine gaps (headRow left comparison right)).contains ')' = true := by
    simp [headRow_eq]
  have hbrace : (rowLine gaps (headRow left comparison right)).contains openBrace = true := by
    simp [headRow_eq]
  simp only [headElements, stripComment_headRow, inParens_headRow, elements_conditionText,
    hcount, hclose, hbrace, if_true, Except.map]
  simp [headTokensRead]

/-! ## Its canonical text -/

theorem headLine_eq :
    headLine left comparison right = rowLine (fun _ => 0) (headRow left comparison right) := by
  have hblanks : blanks 1 = [' '] := rfl
  simp [headLine, headText, headRow, rowLine_cons, rowLine_nil, hblanks]

end Head

end Flat

end LineCompiler
