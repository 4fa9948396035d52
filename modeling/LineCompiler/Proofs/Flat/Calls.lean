import LineCompiler.Proofs.Flat.Declarations
import LineCompiler.Proofs.Text.Split

/-!
# System calls are read back

The text of a system call has no comment and no comma inside its fields, so it falls into its fields
again, with the spaces in front of a comma at the end of the field before it.  Each field is then
read by itself: the number, the arguments, and the name for the error with the semicolon.  Spaces
around a field do not count, but those behind a star do (`Argument.tokensRead`).
-/

namespace LineCompiler.Flat

open Text Number Syscall

/-! ## The fields -/

/-- The characters of the fields of a system call. -/
def isFieldChar (c : Char) : Bool :=
  isPart c || c = ' ' || c = '-' || c = '*' || c = ';' || c = '\n'

theorem isFieldChar_of_isPart {c : Char} (hc : isPart c = true) : isFieldChar c = true := by
  simp [isFieldChar, hc]

theorem isFieldChar_integerText (value : Int) :
    ∀ c ∈ (integerText value).toList, isFieldChar c = true := by
  intro c hc
  rcases mem_integerText hc with rfl | hdigit
  · decide
  · exact isFieldChar_of_isPart (isPart_of_isDigit hdigit)

theorem Name.isFieldChar_of_mem (name : Name) : ∀ c ∈ name.text, isFieldChar c = true :=
  fun c hc => isFieldChar_of_isPart (name.isPart_of_mem c hc)

theorem CallNumber.isFieldChar_of_mem (number : CallNumber) :
    ∀ c ∈ number.text, isFieldChar c = true := by
  cases number with
  | integer value known => exact isFieldChar_integerText value
  | named name => exact name.isFieldChar_of_mem

theorem Argument.isFieldChar_of_mem (argument : Argument) :
    ∀ c ∈ argument.text, isFieldChar c = true := by
  cases argument with
  | integer value short => exact isFieldChar_integerText value
  | named name => exact name.isFieldChar_of_mem
  | dereferenced name =>
      intro c hc
      rcases List.mem_cons.mp hc with rfl | hc
      · decide
      · exact name.isFieldChar_of_mem c hc

theorem Argument.isFieldChar_of_mem_elements {argument : Argument} {element : Element}
    (helement : element ∈ argument.elements) : ∀ c ∈ element.text, isFieldChar c = true := by
  intro c hc
  apply argument.isFieldChar_of_mem c
  cases argument with
  | dereferenced name =>
      simp only [Argument.elements, List.mem_cons, List.not_mem_nil, or_false] at helement
      rcases helement with rfl | rfl
      · exact List.mem_cons.mpr (Or.inl (List.mem_singleton.mp hc))
      · exact List.mem_cons_of_mem _ hc
  | integer value short | named name => rwa [List.mem_singleton.mp helement] at hc

/-- The last field of a system call. -/
def errorField (error : Name) (front back : Nat) : List Char :=
  padded front error.text back ++ [';', '\n']

private theorem comma_not_mem_errorField (error : Name) (front back : Nat) :
    ',' ∉ errorField error front back := by
  intro hcomma
  rcases List.mem_append.mp hcomma with hname | hend
  · exact not_mem_padded (not_mem_of_isPart error.isPart_of_mem (by decide)) (by decide) hname
  · exact absurd hend (by decide)

/-- The fields of a system call behind its number. -/
def fieldsBehind (error : Name) (gaps : Gaps) : List Argument → List (List Char)
  | [] => [errorField error (1 + gaps 1) (gaps 2)]
  | argument :: rest =>
      let next := gaps.after (1 + argument.elements.length)
      (spread (gaps.after 1) argument.elements ++ blanks (next 0)) :: fieldsBehind error next rest

/-- A system call falls into its fields. -/
theorem splitOn_argumentElements {error : Name} {gaps : Gaps} {arguments : List Argument}
    {front : List Char} (hfront : ',' ∉ front) :
    splitOn ',' (front ++ rowLine gaps (argumentElements error arguments)) =
      (front ++ blanks (gaps 0)) :: fieldsBehind error gaps arguments := by
  have hpiece : ',' ∉ front ++ blanks (gaps 0) := by
    intro hcomma
    rcases List.mem_append.mp hcomma with hmem | hblank
    · exact hfront hmem
    · exact absurd (eq_of_mem_blanks hblank) (by decide)
  induction arguments generalizing gaps front with
  | nil =>
      have hsplit : front ++ rowLine gaps (argumentElements error []) =
          (front ++ blanks (gaps 0)) ++ ',' :: errorField error (1 + gaps 1) (gaps 2) := by
        simp [argumentElements, rowLine_cons, rowLine_nil, errorField, padded]
      rw [hsplit, splitOn_append_cons hpiece,
        splitOn_of_not_mem (comma_not_mem_errorField error _ _)]
      rfl
  | cons argument rest ih =>
      have hsplit : front ++ rowLine gaps (argumentElements error (argument :: rest)) =
          (front ++ blanks (gaps 0)) ++ ',' :: (spread (gaps.after 1) argument.elements ++
            rowLine (gaps.after (1 + argument.elements.length)) (argumentElements error rest)) := by
        simp [argumentElements, rowLine_cons, rowLine_append]
      have hargument : ',' ∉ spread (gaps.after 1) argument.elements := by
        intro hcomma
        rcases mem_spread hcomma with hspace | ⟨element, helement, hmem⟩
        · exact absurd hspace (by decide)
        · exact absurd (Argument.isFieldChar_of_mem_elements helement ',' hmem) (by decide)
      rw [hsplit, splitOn_append_cons hpiece, ih hargument]
      · rfl
      · intro hcomma
        rcases List.mem_append.mp hcomma with hmem | hblank
        · exact hargument hmem
        · exact absurd (eq_of_mem_blanks hblank) (by decide)

private theorem mem_argumentElements {error : Name} {arguments : List Argument} {element : Element}
    (helement : element ∈ argumentElements error arguments) :
    ∀ c ∈ element.text, isFieldChar c = true ∨ c = ',' := by
  intro c hc
  induction arguments with
  | nil =>
      simp only [argumentElements, List.mem_cons, List.not_mem_nil, or_false] at helement
      rcases helement with rfl | rfl | rfl
      · exact Or.inr (List.mem_singleton.mp hc)
      · exact Or.inl (error.isFieldChar_of_mem c hc)
      · rw [List.mem_singleton.mp hc]
        decide
  | cons argument rest ih =>
      rw [argumentElements, List.mem_cons, List.mem_append] at helement
      rcases helement with rfl | hargument | hrest
      · exact Or.inr (List.mem_singleton.mp hc)
      · exact Or.inl (Argument.isFieldChar_of_mem_elements hargument c hc)
      · exact ih hrest

private theorem argumentElements_concat (error : Name) (arguments : List Argument) :
    ∃ front, argumentElements error arguments = front ++ [⟨[';'], 0, false⟩] := by
  induction arguments with
  | nil => exact ⟨[_, _], rfl⟩
  | cons argument rest ih =>
      obtain ⟨front, hfront⟩ := ih
      refine ⟨⟨[','], 0, false⟩ :: (argument.elements ++ front), ?_⟩
      rw [argumentElements, hfront, List.cons_append, List.append_assoc]

private theorem stripComment_callRow (gaps : Gaps) (number : CallNumber) (arguments : List Argument)
    (error : Name) :
    Source.stripComment (rowLine gaps (callElements number arguments error)) =
      rowLine gaps (callElements number arguments error) := by
  have hslashes : ¬ Source.slashes <:+: rowLine gaps (callElements number arguments error) := by
    intro hwithin
    have hslash : '/' ∈ rowLine gaps (callElements number arguments error) :=
      hwithin.subset (by simp [Source.slashes])
    rcases List.mem_append.mp hslash with hrow | hend
    · rcases mem_spread hrow with hspace | ⟨element, helement, hmem⟩
      · exact absurd hspace (by decide)
      · rcases List.mem_cons.mp helement with rfl | helement
        · exact absurd (number.isFieldChar_of_mem '/' hmem) (by decide)
        · exact absurd (mem_argumentElements helement '/' hmem) (by decide)
    · exact absurd hend (by decide)
  have hcode := Source.codeFrom_of_no_slashes hslashes false false
  obtain ⟨front, hfront⟩ := argumentElements_concat error arguments
  rw [callElements, hfront, ← List.cons_append] at hcode ⊢
  obtain ⟨before, hbefore⟩ := exists_rowLine_concat gaps (⟨number.text, 1, false⟩ :: front) ';' 0
  rw [hbefore] at hcode ⊢
  exact Source.stripComment_eq_self hcode (by decide)

/-! ## The tokens of the fields -/

/-- The token of the number of a system call. -/
def CallNumber.token : CallNumber → Token
  | .integer value _ => .of .number (.integer value)
  | .named name => .of .identifier name.atom

/-- The tokens of an argument. -/
def Argument.tokens : Argument → List Token
  | .integer value _ => [.of .number (.integer value)]
  | .named name => [.of .string name.atom]
  | .dereferenced name => [.of .dereference (.text "*"), .of .string name.atom]

private theorem numberToken_padded (line : Atom) (number : CallNumber) (front back : Nat) :
    numberToken line (padded front number.text back) = .ok number.token := by
  cases number with
  | integer value known =>
      have hshort : (value : Int).natAbs < 10 ^ maxDigits := by
        rw [Int.natAbs_natCast]
        exact Nat.lt_of_le_of_lt known (Nat.lt_of_lt_of_le (by decide : 456 < 10 ^ 3)
          (Nat.pow_le_pow_right (by decide) (by decide)))
      have hnumber : ¬ greatestNumber < (value : Int) := by
        simp only [greatestNumber]
        omega
      simp only [numberToken, CallNumber.text, integer?_padded, integer?_integerText hshort,
        if_neg hnumber, CallNumber.token]
  | named name =>
      simp only [numberToken, CallNumber.text, integer?_padded, name.integer?_text, strip_padded,
        name.strip_text, CallNumber.token, Name.atom]

/-- A name is an argument with the spaces that stand in front of it. -/
theorem argumentToken_name (name : Name) (gap : Nat) :
    argumentToken (blanks gap ++ name.text) = .of .string (.ofChars (blanks gap ++ name.text)) := by
  have hpadded : blanks gap ++ name.text = padded gap name.text 0 := by simp [padded]
  have hinteger : integer? (blanks gap ++ name.text) = none := by
    rw [hpadded, integer?_padded, name.integer?_text]
  have hpoint : (blanks gap ++ name.text).contains '.' = false := by
    have hmem := @not_mem_padded gap 0 _ _ name.not_mem_point (by decide)
    rw [← hpadded] at hmem
    simpa using hmem
  simp only [argumentToken, hinteger]
  cases decimal? (blanks gap ++ name.text) with
  | none => rfl
  | some value => simp only [hpoint, Bool.false_eq_true, if_false]

theorem argumentTokens_of_no_star {text : List Char} (hstrip : strip text = text)
    (hstar : '*' ∉ text) (front back : Nat) :
    argumentTokens (padded front text back) = [argumentToken text] := by
  unfold argumentTokens
  rw [strip_padded, hstrip]
  split
  · exact absurd (List.mem_cons_self ..) hstar
  · rfl

/-- The tokens of an argument with some spaces behind its star. -/
def Argument.tokensRead (gap : Nat) : Argument → List Token
  | .dereferenced name =>
      [.of .dereference (.text "*"), .of .string (.ofChars (blanks gap ++ name.text))]
  | argument => argument.tokens

private theorem strip_star (name : Name) (gap : Nat) :
    strip ('*' :: (blanks gap ++ name.text)) = '*' :: (blanks gap ++ name.text) := by
  have hname : name.text ≠ [] := List.cons_ne_nil _ _
  have hlast : ('*' :: (blanks gap ++ name.text)).getLast? = some (name.text.getLast hname) := by
    rw [← List.cons_append, List.getLast?_append, List.getLast?_eq_some_getLast hname,
      Option.some_or]
  exact trim_eq_self_of_ends (by decide)
    (isBlank_of_isPart (name.isPart_of_mem _ (List.getLast_mem hname))) rfl hlast

private theorem argumentTokens_row (argument : Argument) (gaps : Gaps) (back : Nat) :
    argumentTokens (spread gaps argument.elements ++ blanks back) =
      argument.tokensRead (gaps 1) := by
  cases argument with
  | integer value short =>
      have hblank : ∀ c ∈ (integerText value).toList, isBlank c = false := by
        intro c hc
        rcases mem_integerText hc with rfl | hdigit
        · decide
        · exact isBlank_of_isPart (isPart_of_isDigit hdigit)
      have hfield : spread gaps (Argument.integer value short).elements ++ blanks back =
          padded (1 + gaps 0) (integerText value).toList back := by
        simp [Argument.elements, Argument.text, spread, padded]
      rw [hfield, argumentTokens_of_no_star (trim_eq_self hblank)
        (not_mem_integerText (by decide) (by decide) value), argumentToken,
        integer?_integerText short]
      rfl
  | named name =>
      have hfield : spread gaps (Argument.named name).elements ++ blanks back =
          padded (1 + gaps 0) name.text back := by
        simp [Argument.elements, Argument.text, spread, padded]
      rw [hfield, argumentTokens_of_no_star name.strip_text
        (not_mem_of_isPart name.isPart_of_mem (by decide))]
      exact congrArg (fun token => [token]) (argumentToken_name name 0)
  | dereferenced name =>
      have hfield : spread gaps (Argument.dereferenced name).elements ++ blanks back =
          padded (1 + gaps 0) ('*' :: (blanks (gaps 1) ++ name.text)) back := by
        simp [Argument.elements, spread, padded]
      simp only [argumentTokens, hfield, strip_padded, strip_star, argumentToken_name,
        Argument.tokensRead]

private theorem errorTokens_field (error : Name) (front back : Nat) :
    errorTokens (errorField error front back) =
      .ok [.of .identifier error.atom, .symbol .semicolon] := by
  have hstrip : strip (errorField error front back) = error.text ++ (blanks back ++ [';']) := by
    have hsplit : errorField error front back =
        padded front (error.text ++ (blanks back ++ [';'])) 0 ++ ['\n'] := by
      simp [errorField, padded]
    have hlast : (error.text ++ (blanks back ++ [';'])).getLast? = some ';' := by
      rw [← List.append_assoc, List.getLast?_concat]
    rw [hsplit, strip, trim_append_singleton_of (by decide), ← strip, strip_padded]
    exact trim_eq_self_of_ends (isBlank_of_isPart (error.isPart_of_mem _ (List.mem_cons_self ..)))
      (by decide) rfl hlast
  have hname : strip (error.text ++ blanks back) = error.text :=
    (strip_padded 0 error.text back).trans error.strip_text
  simp only [errorTokens, hstrip, ← List.append_assoc, List.getLast?_concat, if_true,
    List.dropLast_concat, hname]
  rfl

/-! ## The whole call -/

/-- The arguments of a system call, each with the gap that would stand behind its star. -/
def starGaps (gaps : Gaps) : List Argument → List (Argument × Nat)
  | [] => []
  | argument :: rest =>
      (argument, gaps 2) :: starGaps (gaps.after (1 + argument.elements.length)) rest

/-- The tokens of a system call behind its keyword, with the arguments that are read. -/
def callTokensRead (gaps : Gaps) (number : CallNumber) (arguments : List Argument) (error : Name) :
    List Token :=
  number.token :: (starGaps gaps arguments).flatMap (fun held => held.1.tokensRead held.2) ++
    [.of .identifier error.atom, .symbol .semicolon]

private theorem fieldsBehind_concat (error : Name) (gaps : Gaps) (arguments : List Argument) :
    ∃ fields front back,
      fieldsBehind error gaps arguments = fields ++ [errorField error front back] ∧
      fields.length = arguments.length ∧
      fields.flatMap argumentTokens =
        (starGaps gaps arguments).flatMap fun held => held.1.tokensRead held.2 := by
  induction arguments generalizing gaps with
  | nil => exact ⟨[], _, _, rfl, rfl, rfl⟩
  | cons argument rest ih =>
      obtain ⟨fields, front, back, hfields, hlength, htokens⟩ :=
        ih (gaps.after (1 + argument.elements.length))
      refine ⟨_ :: fields, front, back, by rw [fieldsBehind, hfields]; rfl, ?_, ?_⟩
      · rw [List.length_cons, hlength, List.length_cons]
      · rw [List.flatMap_cons, argumentTokens_row, htokens, starGaps, List.flatMap_cons]
        rfl

/-- **System calls are read**, with any spaces between their elements. -/
theorem elements_callRow (line : Atom) (gaps : Gaps) (number : CallNumber)
    (arguments : List Argument) (arity : arguments.length ≤ 6) (error : Name) :
    elements line (rowLine gaps (callElements number arguments error)) =
      .ok (callTokensRead (gaps.after 1) number arguments error) := by
  have hnumber : ',' ∉ blanks (1 + gaps 0) ++ number.text := by
    intro hcomma
    rcases List.mem_append.mp hcomma with hblank | hmem
    · exact absurd (eq_of_mem_blanks hblank) (by decide)
    · exact absurd (number.isFieldChar_of_mem ',' hmem) (by decide)
  obtain ⟨fields, front, back, hfields, hlength, htokens⟩ :=
    fieldsBehind_concat error (gaps.after 1) arguments
  have hsplit : splitOn ',' (rowLine gaps (callElements number arguments error)) =
      padded (1 + gaps 0) number.text (gaps 1) :: (fields ++ [errorField error front back]) := by
    rw [callElements, rowLine_cons, ← List.append_assoc, splitOn_argumentElements hnumber, hfields]
    simp [padded]
  have hlast : (padded (1 + gaps 0) number.text (gaps 1) ::
      (fields ++ [errorField error front back])).getLastD [] = errorField error front back := by
    rw [List.getLastD_cons, List.getLastD_concat]
  have harity : ¬ maxArguments < fields.length := by
    rw [hlength]
    exact Nat.not_lt.mpr arity
  rw [elements, stripComment_callRow, hsplit]
  simp only [List.headD_cons, List.drop_succ_cons, List.drop_zero, hlast]
  rw [List.dropLast_concat, htokens]
  simp only [if_neg harity, numberToken_padded, errorTokens_field]
  rfl

/-! ## Its canonical text -/

theorem callText_eq (number : CallNumber) (arguments : List Argument) (error : Name) :
    callText number arguments error =
      rowLine (fun _ => 0) (callElements number arguments error) := by
  have hblanks : blanks 1 = [' '] := rfl
  have hafter : ∀ count, Gaps.after (fun _ => 0) count = fun _ => 0 := fun _ => rfl
  have hargument : ∀ argument : Argument,
      spread (fun _ => 0) argument.elements = ' ' :: argument.text := by
    intro argument
    cases argument <;> simp [Argument.elements, Argument.text, spread, hblanks]
  have hbehind : (callFields number arguments error).2.flatMap (',' :: ·) =
      rowLine (fun _ => 0) (argumentElements error arguments) := by
    induction arguments with
    | nil => simp [callFields, argumentElements, rowLine_cons, rowLine_nil, hblanks]
    | cons argument rest ih =>
        simp only [callFields, List.map_cons, List.cons_append, List.flatMap_cons] at ih ⊢
        rw [ih]
        simp [argumentElements, rowLine_cons, rowLine_append, hafter, hargument]
  rw [callText]
  simp only [hbehind, callElements, rowLine_cons, hafter]
  rfl

end LineCompiler.Flat
