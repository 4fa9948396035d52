import LineCompiler.Proofs.Initialised
import LineCompiler.Proofs.Token.Value

/-!
# Constants and variables are read alike

The readers of constants and of variables differ in where a type ends: a semicolon or a line feed
ends the type of a variable and not that of a constant.  Where a value is given, this makes no
difference.  Let the first colon come before the first equals sign, and this one before the first
semicolon and the first line feed.  Then every type that is looked for in front of the equals sign
ends at it, and a declaration is complete there at the latest.
-/

namespace LineCompiler.Declaration

open Text

/-- A text that gives a value: its first colon comes before its first equals sign, which comes
before its first semicolon and its first line feed and has a place behind it where a value ends. -/
structure GivesValue (text : List Char) : Prop where
  colon : text.idxOf ':' < text.idxOf '='
  semicolon : text.idxOf '=' < text.idxOf ';'
  feed : text.idxOf '=' < text.idxOf '\n'
  ends : ∃ value ending back, text.drop (text.idxOf '=' + 1) = value ++ ending :: back ∧
    EndsAt none value ending

private theorem GivesValue.exists_parts {text : List Char} (hvalue : GivesValue text) :
    ∃ front rest found, text = front ++ '=' :: rest ∧ ':' ∈ front ∧
      (∀ c ∈ front, c ∉ ['=', ';', '\n']) ∧
      valueText? none rest = some found := by
  obtain ⟨hcolon, hsemicolon, hfeed, value, ending, back, hback, hends⟩ := hvalue
  have hmem : '=' ∈ text :=
    List.idxOf_lt_length_iff.mp (Nat.lt_of_lt_of_le hfeed List.idxOf_le_length)
  obtain ⟨front, rest, rfl, hequals⟩ := List.eq_append_cons_of_mem hmem
  have hindex : (front ++ '=' :: rest).idxOf '=' = front.length := by
    rw [List.idxOf_append, if_neg hequals, List.idxOf_cons_self, Nat.zero_add]
  -- A character of the front has its first place there.
  have hwithin : ∀ c ∈ front, (front ++ '=' :: rest).idxOf c < front.length := by
    intro c hc
    rw [List.idxOf_append, if_pos hc]
    exact List.idxOf_lt_length_iff.mpr hc
  rw [hindex] at hcolon hsemicolon hfeed hback
  have hrest : rest = value ++ ending :: back := by
    rw [← hback, ← List.drop_drop, List.drop_left, List.drop_one, List.tail_cons]
  obtain ⟨found, hfound⟩ := exists_valueText? (List.mem_cons_self ..) hends back
  refine ⟨front, rest, found, rfl, ?_, fun c hc hmark => ?_, hrest ▸ hfound⟩
  · refine Decidable.byContradiction fun hnone => ?_
    rw [List.idxOf_append, if_neg hnone] at hcolon
    omega
  · have hlt := hwithin c hc
    simp only [List.mem_cons, List.not_mem_nil, or_false] at hmark
    rcases hmark with rfl | rfl | rfl
    · exact hequals hc
    · omega
    · omega

/-! ## Elements of sized forms -/

/-- What holds of the elements that all forms with a size find, whatever word was gathered
before. -/
def Agreed (elements : List Token) (word text : List Char) (result : List Token) : Prop :=
  (result.length = 4 ∨ result.length = 5) ∧
    ∀ form : Form, form.Standard → form.sized = true → elementsFrom form elements word text = result

variable {elements : List Token} {name type rest : List Char} {found : List Char × Char}

theorem withType_equals {form : Form} (hform : form.Standard) (hsized : form.sized = true)
    (htype : ∀ c ∈ type, c ∉ ['=', ';', '\n']) :
    withType form elements (type ++ '=' :: rest) =
      elements ++ (if elements.length = 1 then [.of .dynamicSize (.integer defaultSize)] else []) ++
        [.of .type (.ofChars (packed type))] := by
  have hfound : typeText? form.typeEnds (type ++ '=' :: rest) = some (packed type, '=', rest) :=
    typeText?_append (fun c hc hmem => htype c hc (hform.ends c hmem)) hform.equals
  simp [withType, hfound, hsized]

theorem Form.Standard.open_of_lt {form : Form} (hform : form.Standard) (hsized : form.sized = true)
    (hlength : elements.length < 4) : Open form elements := by
  rw [Open, hform.complete, if_pos hsized]
  exact hlength

theorem Form.Standard.continued_of_length {form : Form} (hform : form.Standard)
    (hsized : form.sized = true) (hlength : elements.length = 4 ∨ elements.length = 5) :
    continued form elements rest = elements := by
  have hcomplete : form.complete = 4 := by rw [hform.complete, if_pos hsized]
  rcases hlength with hlength | hlength
  · exact continued_of_complete (Nat.zero_le 1) (by omega)
  · exact continued_of_complete (Nat.le_refl 1) (by omega)

private theorem length_withValue (hfound : valueText? none rest = some found) :
    (withValue elements rest).length = elements.length + 1 ∨
    (withValue elements rest).length = elements.length + 2 := by
  rw [withValue, hfound]
  dsimp only
  split
  · exact Or.inr (by simp)
  · exact Or.inl (by simp)

/-- With three elements the reading ends at the next colon, or else at the equals sign. -/
theorem exists_agreed_of_three (hlength : elements.length = 3)
    (htype : ∀ c ∈ type, c ∉ ['=', ';', '\n']) (hfound : valueText? none rest = some found)
    (word : List Char) :
    ∃ result, Agreed elements word (type ++ '=' :: rest) result := by
  have hne : elements ≠ [] := by
    rintro rfl
    cases hlength
  have hequals : '=' ∉ type := fun hmem => htype _ hmem (by decide)
  by_cases hcolon : ':' ∈ type
  · obtain ⟨before, after, rfl, hbefore⟩ := List.eq_append_cons_of_mem hcolon
    refine ⟨elements ++ [.of .type (.ofChars (packed after))], by simp [hlength],
      fun form hform hsized => ?_⟩
    have hafter : ∀ c ∈ after, c ∉ ['=', ';', '\n'] := fun c hc => htype c (by simp [hc])
    rw [List.append_assoc, List.cons_append,
      elementsFrom_skip hne (hform.open_of_lt hsized (by omega)) hbefore
        (fun hmem => hequals (by simp [hmem])),
      elementsFrom_colon hne, withType_equals hform hsized hafter,
      hform.continued_of_length hsized (by simp [hlength])]
    simp [hlength]
  · have hcount := @length_withValue elements rest found hfound
    refine ⟨withValue elements rest, by omega, fun form hform hsized => ?_⟩
    rw [elementsFrom_skip hne (hform.open_of_lt hsized (by omega)) hcolon hequals,
      elementsFrom_equals hne, hform.continued_of_length hsized (by omega)]

/-- With two elements, the next colon gives the third. -/
theorem exists_agreed_of_two (hlength : elements.length = 2) (hcolon : ':' ∈ type)
    (htype : ∀ c ∈ type, c ∉ ['=', ';', '\n']) (hfound : valueText? none rest = some found)
    (word : List Char) :
    ∃ result, Agreed elements word (type ++ '=' :: rest) result := by
  have hne : elements ≠ [] := by
    rintro rfl
    cases hlength
  obtain ⟨before, after, rfl, hbefore⟩ := List.eq_append_cons_of_mem hcolon
  have hequals : '=' ∉ before := fun hmem => htype '=' (by simp [hmem]) (by decide)
  have hafter : ∀ c ∈ after, c ∉ ['=', ';', '\n'] := fun c hc => htype c (by simp [hc])
  have hthree : (elements ++ [Token.of .type (.ofChars (packed after))]).length = 3 := by
    simp [hlength]
  obtain ⟨result, hcount, hresult⟩ := exists_agreed_of_three hthree hafter hfound []
  refine ⟨result, hcount, fun form hform hsized => ?_⟩
  rw [List.append_assoc, List.cons_append,
    elementsFrom_skip hne (hform.open_of_lt hsized (by omega)) hbefore hequals,
    elementsFrom_colon hne, withType_equals hform hsized hafter, if_neg (by omega), List.append_nil,
    continued_of_open (hform.open_of_lt hsized (by omega)), hresult form hform hsized]

/-- Where a value is given, all forms with a size find the same elements. -/
theorem exists_agreed {front : List Char} (hcolon : ':' ∈ front)
    (hfront : ∀ c ∈ front, c ∉ ['=', ';', '\n']) (hfound : valueText? none rest = some found)
    (word : List Char) :
    ∃ result, Agreed [] word (front ++ '=' :: rest) result := by
  -- The name goes up to the first colon or bracket; until then there are no elements.
  induction front generalizing word with
  | nil => exact absurd hcolon List.not_mem_nil
  | cons c front ih =>
      have hothers : ∀ d ∈ front, d ∉ ['=', ';', '\n'] :=
        fun d hd => hfront d (List.mem_cons_of_mem _ hd)
      by_cases hspace : c = ' '
      · subst hspace
        have hlater : ':' ∈ front := (List.mem_cons.mp hcolon).resolve_left (by decide)
        obtain ⟨result, hcount, hresult⟩ := ih hlater hothers word
        refine ⟨result, hcount, fun form hform hsized => ?_⟩
        rw [List.cons_append, elementsFrom, if_pos rfl, hresult form hform hsized]
      by_cases hmark : c = ':'
      · subst hmark
        obtain ⟨result, hcount, hresult⟩ := @exists_agreed_of_three
          [.of .word (.ofChars word), .of .dynamicSize (.integer defaultSize),
            .of .type (.ofChars (packed front))]
          front rest found rfl hothers hfound []
        refine ⟨result, hcount, fun form hform hsized => ?_⟩
        rw [List.cons_append, elementsFrom_name_colon, withType_equals hform hsized hothers,
          continued_of_open (hform.open_of_lt hsized (by simp)), ← hresult form hform hsized]
        rfl
      · have hlater : ':' ∈ front := (List.mem_cons.mp hcolon).resolve_left (Ne.symm hmark)
        by_cases hbracket : c = '['
        · subst hbracket
          obtain ⟨result, hcount, hresult⟩ := @exists_agreed_of_two
            [.of .word (.ofChars word), .of .size (.ofChars (sizeText (front ++ '=' :: rest)))]
            front rest found rfl hlater hothers hfound []
          refine ⟨result, hcount, fun form hform hsized => ?_⟩
          rw [List.cons_append, elementsFrom_bracket hsized,
            continued_of_open (hform.open_of_lt hsized (by simp)), hresult form hform hsized]
        · have hequals : c ≠ '=' := fun heq => hfront c (List.mem_cons_self ..) (by simp [heq])
          obtain ⟨result, hcount, hresult⟩ := ih hlater hothers (wordAfter .constants [] word c)
          refine ⟨result, hcount, fun form hform hsized => ?_⟩
          have hafter : elementsAfter form [] word c (front ++ '=' :: rest) = [] := by
            simp [elementsAfter, endsName, hmark, hbracket, hequals]
          have hword : wordAfter form [] word c = wordAfter .constants [] word c := by
            simp [wordAfter, hsized, Form.constants]
          have hopen :=
            (hform.open_of_lt hsized (show ([] : List Token).length < 4 by decide)).not_complete
          rw [List.cons_append, elementsFrom, if_neg hspace]
          simp only [hafter, if_neg hopen, hword, hresult form hform hsized]

/-! ## Lines -/

/-- **Constants and variables are read alike.**  Let the text behind an index of a line, without its
comment, give a value.  Then the reader of constants, on a line that opens with the keyword of
constants, and the reader of variables, on a line that opens with theirs, find the same elements,
and these are complete: four or five. -/
theorem constants_vars_read_alike (content : List Char) (index : Int)
    {constantLine variableLine : List Token}
    (hconstant : constantLine.head? = some (.keyword .const))
    (hvariable : variableLine.head? = some (.keyword .var))
    (hvalue : GivesValue (Source.stripComment (dropTo (index + 1) content))) :
    ∃ elements, (elements.length = 4 ∨ elements.length = 5) ∧
      read .constants Token.isConstant constantLine (dropTo (index + 1) content) = .ok elements ∧
      read .vars Token.isVariable variableLine (dropTo (index + 1) content) = .ok elements := by
  obtain ⟨front, rest, found, htext, hcolon, hfront, hfound⟩ := hvalue.exists_parts
  obtain ⟨result, hcount, hresult⟩ := exists_agreed hcolon hfront hfound []
  rw [← htext] at hresult
  obtain ⟨constantRest, rfl⟩ := List.head?_eq_some_iff.mp hconstant
  obtain ⟨variableRest, rfl⟩ := List.head?_eq_some_iff.mp hvariable
  refine ⟨result, hcount, ?_, ?_⟩
  · exact congrArg Except.ok (hresult .constants (Form.standard (by simp)) rfl)
  · exact congrArg Except.ok (hresult .vars (Form.standard (by simp)) rfl)

/-- A text with a size, marks within quotes and a comment. -/
def markedText : List Char :=
  "const t[2]: str = \"x: y; = z\"; // c = d;\n".toList

private theorem stripComment_markedText :
    Source.stripComment (dropTo (4 + 1) markedText) = " t[2]: str = \"x: y; = z\";\n".toList := by
  decide +kernel

theorem constants_vars_read_alike_markedText :
    GivesValue (Source.stripComment (dropTo (4 + 1) markedText)) ∧
      ∃ elements, (elements.length = 4 ∨ elements.length = 5) ∧
        read .constants Token.isConstant [.keyword .const] (dropTo (4 + 1) markedText) =
          .ok elements ∧
        read .vars Token.isVariable [.keyword .var] (dropTo (4 + 1) markedText) = .ok elements := by
  have hends : EndsAt none " \"x: y; = z\"".toList ';' := ⟨Or.inl rfl, by decide +kernel⟩
  have hvalue : GivesValue (Source.stripComment (dropTo (4 + 1) markedText)) := by
    rw [stripComment_markedText]
    exact ⟨by decide +kernel, by decide +kernel, by decide +kernel, _, ';', ['\n'],
      by decide +kernel, hends⟩
  exact ⟨hvalue, constants_vars_read_alike markedText 4 rfl rfl hvalue⟩

end LineCompiler.Declaration
