import LineCompiler.Proofs.Flat.Spacing

/-!
# Declarations are read back

The three forms of declarations share their text: a name, perhaps a size, a type, and perhaps a
value.  `elements_declarationRow` reads it for any form that fits it, with any spaces between the
elements.  Only the size may be misread: it ends where a bracket has a colon right behind it
(`sizeRead_eq_iff`).
-/

namespace LineCompiler.Flat

open Text Declaration

/-! ## The text has no comment -/

private theorem not_slashes_append {text tail : List Char} (htext : ¬ Source.slashes <:+: text)
    (htail : '/' ∉ tail) : ¬ Source.slashes <:+: text ++ tail := by
  rintro ⟨before, after, heq⟩
  rw [List.append_assoc, List.append_eq_append_iff] at heq
  rcases heq with ⟨middle, htext', hmiddle⟩ | ⟨middle, hbefore, htail'⟩
  · rw [List.append_eq_append_iff] at hmiddle
    rcases hmiddle with ⟨last, hmiddle', -⟩ | ⟨last, hslashes, htail'⟩
    · exact htext ⟨before, last, by rw [htext', hmiddle', List.append_assoc]⟩
    · -- the two slashes would have to start in the text and end in the tail
      cases last with
      | nil => exact htext ⟨before, [], by rw [htext', hslashes]; simp⟩
      | cons c last =>
          have hmem : c ∈ Source.slashes := by rw [hslashes]; simp
          have hslash : c = '/' := by simpa [Source.slashes] using hmem
          exact htail (by rw [htail', hslash]; simp)
  · exact htail (by rw [htail']; simp [Source.slashes])

theorem isInert_of_isPart {c : Char} (hc : isPart c = true) : Source.isInert c = true := by
  have hother : ∀ mark, isPart mark = false → c ≠ mark := by
    rintro mark hmark rfl
    rw [hc] at hmark
    exact absurd hmark (by decide)
  simp only [Source.isInert, Bool.and_eq_true, decide_eq_true_eq, ne_eq]
  exact ⟨⟨hother '/' (by decide), hother '\\' (by decide)⟩, hother doubleQuote (by decide)⟩

/-- The elements of a declaration in front of its value. -/
def frontElements (name : Name) (size : Option Numeral) (type : Scalar) : List Element :=
  ⟨name.text, 1, false⟩ :: (sizeElements size ++ [⟨[':'], 0, size.isSome⟩, ⟨type.text, 1, false⟩])

theorem declarationElements_eq (name : Name) (size : Option Numeral) (type : Scalar)
    (value : Option Value) :
    declarationElements name size type value =
      frontElements name size type ++ (valueElements value ++ [⟨[';'], 0, false⟩]) := by
  simp [declarationElements, frontElements, typeElements, behindColon]

private theorem isInert_of_mem_frontElements {name : Name} {size : Option Numeral} {type : Scalar}
    {element : Element} (helement : element ∈ frontElements name size type) :
    ∀ c ∈ element.text, Source.isInert c = true := by
  have hmark : ∀ {mark c : Char}, Source.isInert mark = true → c ∈ [mark] →
      Source.isInert c = true := by
    intro mark c hmark hc
    rwa [List.mem_singleton.mp hc]
  intro c hc
  cases size with
  | none =>
      simp only [frontElements, sizeElements, List.nil_append, List.mem_cons, List.not_mem_nil,
        or_false] at helement
      rcases helement with rfl | rfl | rfl
      · exact isInert_of_isPart (name.isPart_of_mem c hc)
      · exact hmark (by decide) hc
      · exact isInert_of_isPart (type.isPart_of_mem c hc)
  | some numeral =>
      simp only [frontElements, sizeElements, List.cons_append, List.nil_append, List.mem_cons,
        List.not_mem_nil, or_false] at helement
      rcases helement with rfl | rfl | rfl | rfl | rfl | rfl
      · exact isInert_of_isPart (name.isPart_of_mem c hc)
      · exact hmark (by decide) hc
      · exact isInert_of_isPart (numeral.isPart_of_mem c hc)
      · exact hmark (by decide) hc
      · exact hmark (by decide) hc
      · exact isInert_of_isPart (type.isPart_of_mem c hc)

private theorem isInert_spread_frontElements (gaps : Gaps) (name : Name) (size : Option Numeral)
    (type : Scalar) :
    (spread gaps (frontElements name size type)).all Source.isInert = true := by
  rw [List.all_eq_true]
  intro c hc
  rcases mem_spread hc with rfl | ⟨element, helement, hmem⟩
  · decide
  · exact isInert_of_mem_frontElements helement c hmem

theorem isInert_blanks (count : Nat) : (blanks count).all Source.isInert = true := by
  rw [List.all_eq_true]
  intro c hc
  rw [eq_of_mem_blanks hc]
  decide

/-- A value with spaces behind it holds no comment. -/
theorem codeFrom_value {front : List Char} (hfront : front.all Source.isInert = true)
    (value : Value) (back : Nat) :
    Source.codeFrom false false (front ++ (value.text ++ (blanks back ++ [';', '\n']))) =
      front ++ (value.text ++ (blanks back ++ [';', '\n'])) := by
  have hending : '/' ∉ blanks back ++ [';', '\n'] := by
    intro hslash
    rcases List.mem_append.mp hslash with hblank | hend
    · exact absurd (eq_of_mem_blanks hblank) (by decide)
    · exact absurd hend (by decide)
  cases value with
  | plain text isPlain =>
      have hslashes := not_slashes_append isPlain.noSlashes hending
      exact (Source.codeFrom_append_of_inert hfront _).trans
        (congrArg _ (Source.codeFrom_of_no_slashes hslashes ..))
  | quoted body isBody =>
      have hslashes : ¬ Source.slashes <:+: blanks back ++ [';', '\n'] :=
        fun hwithin => hending (hwithin.subset (by simp [Source.slashes]))
      have hbody : Source.Escaped doubleQuote body :=
        .of_not_mem isBody.noDoubleQuote isBody.noBackslash
      have hstring := Source.codeFrom_of_string hfront hbody hslashes
      simpa [Value.text] using hstring

theorem codeFrom_valueSuffix (value : Option Value) :
    Source.codeFrom false false (valueSuffix value ++ [';', '\n']) =
      valueSuffix value ++ [';', '\n'] := by
  cases value with
  | none => rfl
  | some value =>
      have hequals : [' ', '=', ' '].all Source.isInert := by decide
      exact codeFrom_value hequals value 0

theorem rowLine_value (gaps : Gaps) (value : Value) :
    rowLine gaps (valueElements (some value) ++ [⟨[';'], 0, false⟩]) =
      (blanks (1 + gaps 0) ++ '=' :: blanks (1 + gaps 1)) ++
        (value.text ++ (blanks (gaps 2) ++ [';', '\n'])) := by
  simp [valueElements, rowLine, spread]

theorem rowLine_noValue (gaps : Gaps) :
    rowLine gaps (valueElements none ++ [⟨[';'], 0, false⟩]) = blanks (gaps 0) ++ [';', '\n'] := by
  simp [valueElements, rowLine, spread]

private theorem codeFrom_valueElements (gaps : Gaps) (value : Option Value) :
    Source.codeFrom false false (rowLine gaps (valueElements value ++ [⟨[';'], 0, false⟩])) =
      rowLine gaps (valueElements value ++ [⟨[';'], 0, false⟩]) := by
  cases value with
  | none =>
      rw [rowLine_noValue, Source.codeFrom_append_of_inert (isInert_blanks _)]
      rfl
  | some value =>
      have hequals : (blanks (1 + gaps 0) ++ '=' :: blanks (1 + gaps 1)).all
          Source.isInert = true := by
        rw [List.all_append, List.all_cons, isInert_blanks, isInert_blanks]
        rfl
      rw [rowLine_value]
      exact codeFrom_value hequals value _

private theorem stripComment_declarationRow (gaps : Gaps) (name : Name) (size : Option Numeral)
    (type : Scalar) (value : Option Value) :
    Source.stripComment (rowLine gaps (declarationElements name size type value)) =
      rowLine gaps (declarationElements name size type value) := by
  have hcode : Source.codeFrom false false
      (rowLine gaps (declarationElements name size type value)) =
      rowLine gaps (declarationElements name size type value) := by
    rw [declarationElements_eq, rowLine_append,
      Source.codeFrom_append_of_inert (isInert_spread_frontElements ..), codeFrom_valueElements]
  rw [declarationElements_eq, ← List.append_assoc] at hcode ⊢
  obtain ⟨front, hfront⟩ :=
    exists_rowLine_concat gaps (frontElements name size type ++ valueElements value) ';' 0
  rw [hfront] at hcode ⊢
  exact Source.stripComment_eq_self hcode (by decide)

/-! ## Its elements -/

/-- The token of a size that is read. -/
def sizeTokenOf : Option (List Char) → Token
  | none => .of .dynamicSize (.integer defaultSize)
  | some text => .of .size (.ofChars text)

/-- The tokens of a value. -/
def valueTokens : Option Value → List Token
  | none => []
  | some value => [.of .value (.ofChars value.text)]

/-- The tokens of a declaration behind its keyword, with the size that is read. -/
def readTokens (sized : Bool) (name : Name) (size : Option (List Char)) (type : Scalar)
    (value : Option Value) : List Token :=
  .of .word name.atom :: ((if sized then [sizeTokenOf size] else []) ++
    .of .type (.ofChars type.text) :: (valueTokens value ++ [.symbol .semicolon]))

/-- What a form has to be like for the declarations of the flat language. -/
structure Fits (form : Form) (size : Option Numeral) (value : Option Value) : Prop where
  equals : '=' ∈ form.typeEnds
  words : ∀ c ∈ form.typeEnds, isPart c = false ∧ c ≠ ' '
  complete : form.complete = if form.sized then 4 else 3
  size : size ≠ none → form.sized = true
  value : value = none → ';' ∈ form.typeEnds

theorem fits_constants (size : Option Numeral) (value : Value) :
    Fits .constants size (some value) :=
  ⟨by decide, by simp [Form.constants, isPart], rfl, fun _ => rfl, fun hnone => nomatch hnone⟩

theorem fits_vars (size : Option Numeral) : Fits .vars size none :=
  ⟨by decide, by simp [Form.vars, isPart], rfl, fun _ => rfl, fun _ => by decide⟩

theorem fits_pointers (value : Option Value) : Fits .pointers none value :=
  ⟨by decide, by simp [Form.pointers, isPart], rfl, fun hsize => absurd rfl hsize,
    fun _ => by decide⟩

section Elements

variable {form : Form} {size : Option Numeral} {value : Option Value}

/-- The size that is read, if a size is given: all that stands behind its bracket, up to a bracket
with a colon right behind it. -/
def sizeRead (gaps : Gaps) (size : Option Numeral) (type : Scalar) (value : Option Value) :
    Option (List Char) :=
  size.map fun numeral =>
    sizeText (rowLine gaps
      (⟨numeral.digits, 0, false⟩ :: ⟨[']'], 0, false⟩ :: typeElements size type value))

/-- The size is read as it is written unless there are spaces in front of its colon. -/
theorem sizeRead_eq_iff {gaps : Gaps} {numeral : Numeral} {type : Scalar} {value : Option Value} :
    sizeRead gaps (some numeral) type value = some numeral.digits ↔ gaps 2 = 0 := by
  have hclosing : ']' ∉ padded (gaps 0) numeral.digits (gaps 1) :=
    not_mem_padded (not_mem_of_isPart numeral.isPart_of_mem (by decide)) (by decide)
  have hpacked : packed (padded (gaps 0) numeral.digits (gaps 1)) = numeral.digits :=
    packed_padded (not_mem_of_isPart numeral.isPart_of_mem (by decide)) ..
  have hsplit : rowLine gaps
      (⟨numeral.digits, 0, false⟩ :: ⟨[']'], 0, false⟩ :: typeElements (some numeral) type value) =
        padded (gaps 0) numeral.digits (gaps 1) ++
          ']' :: (blanks (gaps 2) ++ ':' :: rowLine (gaps.after 3) (behindColon type value)) := by
    simp [typeElements, rowLine_cons, padded]
  rw [sizeRead, Option.map_some, hsplit]
  cases gaps 2 with
  | zero =>
      rw [blanks_zero, List.nil_append, sizeText_append hclosing, hpacked]
      simp
  | succ count =>
      -- The bracket does not end the size, and stands in it.
      rw [sizeText_append_of_not_mem hclosing, hpacked, blanks_succ]
      simp [sizeText]

private theorem isNameChar_of_isPart {c : Char} (hc : isPart c = true) : isNameChar c = true := by
  have hother : ∀ mark, isPart mark = false → c ≠ mark := by
    rintro mark hmark rfl
    rw [hc] at hmark
    exact absurd hmark (by decide)
  simp only [isNameChar, Bool.and_eq_true, decide_eq_true_eq, ne_eq]
  exact ⟨⟨⟨hother ':' (by decide), hother '[' (by decide)⟩, hother ']' (by decide)⟩,
    hother '=' (by decide)⟩

theorem Name.isNameChar_of_mem (name : Name) (front back : Nat) :
    ∀ c ∈ padded front name.text back, isNameChar c = true := by
  intro c hc
  rcases mem_padded hc with hname | rfl
  · exact isNameChar_of_isPart (name.isPart_of_mem c hname)
  · decide

/-- The elements of a declaration in front of its type, as far as the line gives them. -/
def elementsBeforeType (name : Name) (size : Option (List Char)) : List Token :=
  .of .word name.atom :: (size.map fun text => sizeTokenOf (some text)).toList

/-- The name is read without its spaces. -/
theorem elementsFrom_nameRow (hfits : Fits form size value) (name : Name) (front back : Nat)
    (rest : List Char) :
    elementsFrom form [] [] (padded front name.text back ++ rest) =
      elementsFrom form [] name.text rest := by
  have hopen : Open form [] := by
    unfold Open
    rw [hfits.complete]
    split <;> decide
  rw [elementsFrom_name hopen (name.isNameChar_of_mem front back),
    packed_padded (not_mem_of_isPart name.isPart_of_mem (by decide)), List.nil_append]

/-- A size in brackets is read and passed over, up to the colon behind it. -/
theorem elementsFrom_sizeRow (hfits : Fits form size value) (hsized : form.sized = true)
    (name : Name) (numeral : Numeral) (front back colon : Nat) (rest : List Char) :
    elementsFrom form [] name.text
        ('[' :: (padded front numeral.digits back ++ ']' :: (blanks colon ++ ':' :: rest))) =
      continued form (withType form (elementsBeforeType name (some (sizeText
        (padded front numeral.digits back ++ ']' :: (blanks colon ++ ':' :: rest)))))
          rest) rest := by
  have hmarks : ∀ mark, isPart mark = false → mark ≠ ']' → mark ≠ ' ' →
      mark ∉ padded front numeral.digits back ++ ']' :: blanks colon := by
    intro mark hmark hbracket hspace hmem
    rcases List.mem_append.mp hmem with hdigit | hclosing
    · exact not_mem_padded (not_mem_of_isPart numeral.isPart_of_mem hmark) hspace hdigit
    · rcases List.mem_cons.mp hclosing with heq | hblank
      · exact hbracket heq
      · exact hspace (eq_of_mem_blanks hblank)
  have hopen : ∀ text, Open form (elementsBeforeType name (some text)) := by
    intro text
    unfold Open
    rw [hfits.complete, hsized]
    simp [elementsBeforeType]
  have hne : ∀ text, elementsBeforeType name (some text) ≠ [] := by simp [elementsBeforeType]
  have hsplit : padded front numeral.digits back ++ ']' :: (blanks colon ++ ':' :: rest) =
      (padded front numeral.digits back ++ ']' :: blanks colon) ++ ':' :: rest := by
    simp
  rw [elementsFrom_bracket hsized]
  -- The digits and the bracket are met once more, and nothing comes of them.
  generalize sizeText
    (padded front numeral.digits back ++ ']' :: (blanks colon ++ ':' :: rest)) = text
  have helements : [Token.of .word (.ofChars name.text), .of .size (.ofChars text)] =
      elementsBeforeType name (some text) := rfl
  rw [helements, continued_of_open (hopen text), hsplit,
    elementsFrom_skip (hne text) (hopen text) (hmarks ':' (by decide) (by decide) (by decide))
      (hmarks '=' (by decide) (by decide) (by decide)), elementsFrom_colon (hne text)]

private theorem elementsFrom_beforeType (hfits : Fits form size value) (gaps : Gaps) (name : Name)
    (type : Scalar) :
    ∃ behind : Gaps,
      elementsFrom form [] [] (rowLine gaps (declarationElements name size type value)) =
        continued form
          (withType form (elementsBeforeType name (sizeRead (gaps.after 2) size type value))
            (rowLine behind (behindColon type value)))
          (rowLine behind (behindColon type value)) := by
  cases size with
  | none =>
      refine ⟨gaps.after 2, ?_⟩
      have hsplit : rowLine gaps (declarationElements name none type value) =
          padded (1 + gaps 0) name.text (gaps 1) ++ ':' ::
            rowLine (gaps.after 2) (behindColon type value) := by
        simp [declarationElements, sizeElements, typeElements, rowLine_cons, padded]
      rw [hsplit, elementsFrom_nameRow hfits, elementsFrom_name_colon]
      rfl
  | some numeral =>
      refine ⟨gaps.after 5, ?_⟩
      have hbehind : rowLine (gaps.after 2)
          (⟨numeral.digits, 0, false⟩ :: ⟨[']'], 0, false⟩ ::
            typeElements (some numeral) type value) =
            padded (gaps 2) numeral.digits (gaps 3) ++
              ']' :: (blanks (gaps 4) ++ ':' ::
                rowLine (gaps.after 5) (behindColon type value)) := by
        simp [typeElements, rowLine_cons, padded]
      have hsplit : rowLine gaps (declarationElements name (some numeral) type value) =
          padded (1 + gaps 0) name.text (gaps 1) ++ '[' :: rowLine (gaps.after 2)
            (⟨numeral.digits, 0, false⟩ :: ⟨[']'], 0, false⟩ ::
              typeElements (some numeral) type value) := by
        simp [declarationElements, sizeElements, rowLine_cons, padded]
      rw [hsplit, elementsFrom_nameRow hfits, sizeRead, Option.map_some, hbehind]
      exact elementsFrom_sizeRow hfits (hfits.size (by simp)) name numeral ..

/-- The elements of a declaration up to its type. -/
def elementsToType (sized : Bool) (name : Name) (size : Option (List Char)) (type : Scalar) :
    List Token :=
  .of .word name.atom :: ((if sized then [sizeTokenOf size] else []) ++
    [.of .type (.ofChars type.text)])

private theorem length_elementsToType (hfits : Fits form size value) (name : Name)
    (text : Option (List Char)) (type : Scalar) :
    (elementsToType form.sized name text type).length + 1 = form.complete := by
  rw [hfits.complete]
  cases form.sized <;> rfl

theorem withType_beforeType {text : Option (List Char)} (hsized : text ≠ none → form.sized = true)
    (name : Name) (type : Scalar) {rest following : List Char} {ending : Char}
    (hrest : typeText? form.typeEnds rest = some (type.text, ending, following)) :
    withType form (elementsBeforeType name text) rest =
      elementsToType form.sized name text type ++
        (if ending = ';' && following.head? = some '\n' then [.symbol .semicolon] else []) := by
  simp only [withType, hrest]
  cases text with
  | none => cases form.sized <;> rfl
  | some text => simp [elementsBeforeType, elementsToType, hsized]

theorem typeText?_padded (hfits : Fits form size value) (type : Scalar) (front back : Nat)
    {ending : Char} (hending : ending ∈ form.typeEnds) (rest : List Char) :
    typeText? form.typeEnds (padded front type.text back ++ ending :: rest) =
      some (type.text, ending, rest) := by
  rw [typeText?_append _ hending, packed_padded (not_mem_of_isPart type.isPart_of_mem (by decide))]
  intro c hc hmem
  obtain ⟨hpart, hspace⟩ := hfits.words c hmem
  exact not_mem_padded (not_mem_of_isPart type.isPart_of_mem hpart) hspace hc

theorem valueText?_padded (value : Value) (front back : Nat) (rest : List Char) :
    valueText? none (padded front value.text back ++ ';' :: rest) =
      some (padded front value.text back, ';') := by
  have hblanks : ∀ count, ∀ c ∈ blanks count, isBare c = true := by
    intro count c hc
    rw [eq_of_mem_blanks hc]
    decide
  have hback : valueText? none (blanks back ++ ';' :: rest) = some (blanks back, ';') := by
    rw [valueText?_append_bare (hblanks back), valueText?_ending (Or.inl rfl)]
    simp
  rw [padded, List.append_assoc, List.append_assoc, valueText?_append_bare (hblanks front)]
  cases value with
  | plain text isPlain =>
      have hbare : ∀ c ∈ text, isBare c = true := by
        intro c hc
        simp only [isBare, Bool.and_eq_true, decide_eq_true_eq, ne_eq]
        refine ⟨⟨⟨?_, ?_⟩, ?_⟩, ?_⟩ <;> rintro rfl
        · exact isPlain.noSingleQuote hc
        · exact isPlain.noDoubleQuote hc
        · exact isPlain.noSemicolon hc
        · exact isPlain.oneLine hc
      rw [Value.text, valueText?_append_bare hbare, hback]
      simp
  | quoted body isBody =>
      rw [Value.text, List.cons_append, List.append_assoc, List.singleton_append,
        valueText?_string isBody.noDoubleQuote, hback]
      simp

/-- **Declarations are read**, with any spaces between their elements. -/
theorem elements_declarationRow (hfits : Fits form size value) (gaps : Gaps) (name : Name)
    (type : Scalar) :
    elements form (rowLine gaps (declarationElements name size type value)) =
      readTokens form.sized name (sizeRead (gaps.after 2) size type value) type value := by
  have hsized : sizeRead (gaps.after 2) size type value ≠ none → form.sized = true := by
    intro hread
    refine hfits.size fun hnone => hread ?_
    rw [hnone]
    rfl
  obtain ⟨behind, hbehind⟩ := elementsFrom_beforeType hfits gaps name type
  rw [elements, stripComment_declarationRow, hbehind]
  generalize sizeRead (gaps.after 2) size type value = text at hsized
  have hlength := length_elementsToType hfits name text type
  rw [behindColon, rowLine_cons]
  cases value with
  | none =>
      -- The semicolon ends the type, and the declaration is complete.
      have hsplit : blanks (1 + behind 0) ++ (type.text ++
          rowLine (behind.after 1) (valueElements none ++ [⟨[';'], 0, false⟩])) =
            padded (1 + behind 0) type.text (behind 1) ++ ';' :: ['\n'] := by
        simp [padded, rowLine_noValue]
      have hfound := typeText?_padded hfits type (1 + behind 0) (behind 1) (hfits.value rfl) ['\n']
      rw [hsplit, withType_beforeType hsized name type hfound,
        continued_of_complete (Nat.zero_le 1)]
      · simp [elementsToType, readTokens, valueTokens]
      · simp [← hlength]
  | some value =>
      -- The equals sign ends the type, and is met again after it, with the value behind it.
      have hsplit : blanks (1 + behind 0) ++ (type.text ++
          rowLine (behind.after 1) (valueElements (some value) ++ [⟨[';'], 0, false⟩])) =
            padded (1 + behind 0) type.text (1 + behind 1) ++
              '=' :: (padded (1 + behind 2) value.text (behind 3) ++ ';' :: ['\n']) := by
        simp [padded, rowLine_value]
      have hfound := typeText?_padded hfits type (1 + behind 0) (1 + behind 1) hfits.equals
        (padded (1 + behind 2) value.text (behind 3) ++ ';' :: ['\n'])
      have hopen : Open form (elementsToType form.sized name text type) := by
        unfold Open
        omega
      have hne : elementsToType form.sized name text type ≠ [] := by simp [elementsToType]
      have hmark : ∀ mark, isPart mark = false → mark ≠ ' ' →
          mark ∉ padded (1 + behind 0) type.text (1 + behind 1) :=
        fun mark hmark => not_mem_padded (not_mem_of_isPart type.isPart_of_mem hmark)
      rw [hsplit, withType_beforeType hsized name type hfound]
      simp only [show ('=' = ';') = False by decide, decide_false, Bool.false_and,
        Bool.false_eq_true, if_false, List.append_nil]
      rw [continued_of_open hopen,
        elementsFrom_skip hne hopen (hmark ':' (by decide) (by decide))
          (hmark '=' (by decide) (by decide)),
        elementsFrom_equals hne, withValue, valueText?_padded,
        continued_of_complete (Nat.le_refl 1)]
      · simp [elementsToType, readTokens, valueTokens, strip_padded, value.strip_text]
      · simp [← hlength]

/-! ## Their canonical text -/

theorem declarationText_eq (name : Name) (size : Option Numeral) (type : Scalar)
    (value : Option Value) :
    declarationText name size type value =
      rowLine (fun _ => 0) (declarationElements name size type value) := by
  have hblanks : blanks 1 = [' '] := rfl
  cases size <;> cases value <;>
    simp [declarationText, declarationElements, sizeElements, sizeSuffix, typeElements, behindColon,
      valueElements, valueSuffix, rowLine, spread, hblanks]

end Elements

/-- The text of a type with a space in front of it and some spaces behind it. -/
def spaced (type : Scalar) (count : Nat) : List Char :=
  ' ' :: (type.text ++ List.replicate count ' ')

private theorem spaced_eq (type : Scalar) (count : Nat) :
    spaced type count = padded 1 type.text count := rfl

theorem not_mem_spaced {mark : Char} (hmark : isPart mark = false) (hspace : mark ≠ ' ')
    (type : Scalar) (count : Nat) : mark ∉ spaced type count := by
  rw [spaced_eq]
  exact not_mem_padded (not_mem_of_isPart type.isPart_of_mem hmark) hspace

theorem packed_spaced (type : Scalar) (count : Nat) : packed (spaced type count) = type.text :=
  packed_padded (not_mem_of_isPart type.isPart_of_mem (by decide)) 1 count

theorem valueText?_value (value : Value) (rest : List Char) :
    valueText? none (' ' :: (value.text ++ ';' :: rest)) = some (' ' :: value.text, ';') := by
  simpa [padded, blanks_succ] using valueText?_padded value 1 0 rest

end LineCompiler.Flat
