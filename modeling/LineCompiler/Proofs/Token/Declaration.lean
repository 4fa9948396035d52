import LineCompiler.Token.Declaration

/-!
# The reader of declarations, piece by piece

The reader of declarations visits a line character by character, but only four characters mean
something to it: the colon and the opening bracket end the name, a colon starts the look for a type,
and an equals sign the look for a value.  The lemmas here take the reader over a whole piece of the
line at a time.  Spaces may stand anywhere in a piece outside values, and do not show in the result.
-/

namespace LineCompiler.Declaration

open Text

variable {form : Form} {elements : List Token} {word chunk rest : List Char}

/-- A piece of a line without its spaces. -/
def packed (chunk : List Char) : List Char :=
  chunk.filter (· ≠ ' ')

@[simp] theorem packed_nil : packed [] = [] := rfl

@[simp] theorem packed_space (chunk : List Char) : packed (' ' :: chunk) = packed chunk := rfl

theorem packed_cons {c : Char} (hc : c ≠ ' ') (chunk : List Char) :
    packed (c :: chunk) = c :: packed chunk := by
  simp [packed, hc]

theorem packed_append (first second : List Char) :
    packed (first ++ second) = packed first ++ packed second :=
  List.filter_append ..

theorem packed_eq_self (hchunk : ' ' ∉ chunk) : packed chunk = chunk := by
  rw [packed, List.filter_eq_self]
  intro c hc
  simp only [decide_eq_true_eq, ne_eq]
  rintro rfl
  exact hchunk hc

/-! ## Sizes -/

theorem sizeText_append_of_not_mem (hchunk : ']' ∉ chunk) :
    sizeText (chunk ++ rest) = packed chunk ++ sizeText rest := by
  induction chunk with
  | nil => rfl
  | cons c others ih =>
      rw [List.mem_cons, not_or] at hchunk
      by_cases hspace : c = ' '
      · subst hspace
        simp [sizeText, ih hchunk.2]
      · simp [sizeText, hspace, Ne.symm hchunk.1, ih hchunk.2, packed_cons hspace]

theorem sizeText_append (hchunk : ']' ∉ chunk) :
    sizeText (chunk ++ ']' :: ':' :: rest) = packed chunk := by
  rw [sizeText_append_of_not_mem hchunk]
  simp [sizeText]

/-! ## Types -/

theorem typeText?_append {ends : List Char} {ending : Char} (hchunk : ∀ c ∈ chunk, c ∉ ends)
    (hending : ending ∈ ends) :
    typeText? ends (chunk ++ ending :: rest) = some (packed chunk, ending, rest) := by
  induction chunk with
  | nil => simp [typeText?, hending]
  | cons c others ih =>
      have hc := hchunk c (List.mem_cons_self ..)
      rw [List.cons_append, typeText?, if_neg (by simpa using hc),
        ih fun d hd => hchunk d (List.mem_cons_of_mem _ hd), Option.map_some]
      by_cases hspace : c = ' '
      · subst hspace
        simp
      · simp [hspace, packed_cons hspace]

/-! ## Values -/

/-- Characters of a value that stand outside quotes and do not end it. -/
def isBare (c : Char) : Bool :=
  c ≠ singleQuote && c ≠ doubleQuote && c ≠ ';' && c ≠ '\n'

theorem valueText?_append_bare (hchunk : ∀ c ∈ chunk, isBare c = true) (rest : List Char) :
    valueText? none (chunk ++ rest) =
      (valueText? none rest).map fun found => (chunk ++ found.1, found.2) := by
  induction chunk with
  | nil => simp
  | cons c others ih =>
      have hc := hchunk c (List.mem_cons_self ..)
      simp only [isBare, Bool.and_eq_true, decide_eq_true_eq, ne_eq] at hc
      obtain ⟨⟨⟨hsingle, hdouble⟩, hsemicolon⟩, hnewline⟩ := hc
      rw [List.cons_append, valueText?]
      simp only [quoteAfter, hsingle, hdouble, hsemicolon, hnewline, decide_false, Bool.or_self,
        Bool.false_eq_true, if_false, Bool.and_false,
        ih fun d hd => hchunk d (List.mem_cons_of_mem _ hd), Option.map_map]
      rfl

private theorem valueText?_append_string {quote : Char} (hchunk : quote ∉ chunk)
    (rest : List Char) :
    valueText? (some quote) (chunk ++ rest) =
      (valueText? (some quote) rest).map fun found => (chunk ++ found.1, found.2) := by
  induction chunk with
  | nil => simp
  | cons c others ih =>
      rw [List.mem_cons, not_or] at hchunk
      rw [List.cons_append, valueText?]
      simp only [quoteAfter, Ne.symm hchunk.1, if_false, Option.isNone_some, Bool.false_and,
        Bool.false_eq_true, ih hchunk.2, Option.map_map]
      rfl

theorem valueText?_ending {ending : Char} (hending : ending = ';' ∨ ending = '\n') :
    valueText? none (ending :: rest) = some ([], ending) := by
  rcases hending with rfl | rfl <;> rfl

/-- A string between double quotes belongs to a value as a whole. -/
theorem valueText?_string (hbody : doubleQuote ∉ chunk) (rest : List Char) :
    valueText? none (doubleQuote :: (chunk ++ doubleQuote :: rest)) =
      (valueText? none rest).map fun found =>
        (doubleQuote :: (chunk ++ doubleQuote :: found.1), found.2) := by
  have hclose : valueText? (some doubleQuote) (doubleQuote :: rest) =
      (valueText? none rest).map fun found => (doubleQuote :: found.1, found.2) := by
    simp [valueText?, quoteAfter, doubleQuote]
  have hopen : valueText? none (doubleQuote :: (chunk ++ doubleQuote :: rest)) =
      (valueText? (some doubleQuote) (chunk ++ doubleQuote :: rest)).map fun found =>
        (doubleQuote :: found.1, found.2) := by
    simp [valueText?, quoteAfter, doubleQuote]
  rw [hopen, valueText?_append_string hbody, hclose]
  simp [Option.map_map, Function.comp_def]

/-! ## Passing over a piece -/

/-- Whether a declaration with these elements is still being read. -/
def Open (form : Form) (elements : List Token) : Prop :=
  elements.length < form.complete

theorem Open.not_complete (hopen : Open form elements) :
    ¬ (elements.length = form.complete || elements.length = form.complete + 1) = true := by
  simp only [Open] at hopen
  simp only [Bool.or_eq_true, decide_eq_true_eq]
  omega

/-- Characters that belong to a name. -/
def isNameChar (c : Char) : Bool :=
  c ≠ ':' && c ≠ '[' && c ≠ ']' && c ≠ '='

/-- The name is gathered without its spaces. -/
theorem elementsFrom_name (hform : Open form []) (hchunk : ∀ c ∈ chunk, isNameChar c = true) :
    elementsFrom form [] word (chunk ++ rest) =
      elementsFrom form [] (word ++ packed chunk) rest := by
  induction chunk generalizing word with
  | nil => simp
  | cons c others ih =>
      have hothers := fun d hd => hchunk d (List.mem_cons_of_mem _ hd)
      rw [List.cons_append, elementsFrom]
      by_cases hspace : c = ' '
      · subst hspace
        rw [if_pos rfl, ih hothers, packed_space]
      · have hc := hchunk c (List.mem_cons_self ..)
        simp only [isNameChar, Bool.and_eq_true, decide_eq_true_eq, ne_eq] at hc
        obtain ⟨⟨⟨hcolon, hopening⟩, hclosing⟩, hequals⟩ := hc
        have hafter : elementsAfter form [] word c (others ++ rest) = [] := by
          simp [elementsAfter, endsName, hcolon, hopening, hequals]
        have hword : wordAfter form [] word c = word ++ [c] := by
          simp [wordAfter, endsName, hcolon, hopening, hclosing]
        simp only [if_neg hspace, hafter, if_neg hform.not_complete, hword, ih hothers,
          packed_cons hspace, List.append_assoc, List.singleton_append]

theorem endsName_of_ne_nil (hne : elements ≠ []) (c : Char) : endsName elements c = false := by
  cases elements with
  | nil => exact absurd rfl hne
  | cons token elements => rfl

/-- The elements of a declaration other than its name. -/
def isPart : Token → Bool
  | .of .size _ | .of .dynamicSize _ | .of .type _ | .of .value _ => true
  | token => token = .symbol .semicolon

private theorem withType_eq_append (form : Form) (elements : List Token) (rest : List Char) :
    ∃ more, withType form elements rest = elements ++ more ∧ more.all isPart := by
  unfold withType
  split
  · exact ⟨[], (List.append_nil _).symm, rfl⟩
  · rw [List.append_assoc, List.append_assoc]
    refine ⟨_, rfl, ?_⟩
    split <;> split <;> rfl

private theorem withValue_eq_append (elements : List Token) (rest : List Char) :
    ∃ more, withValue elements rest = elements ++ more ∧ more.all isPart := by
  unfold withValue
  split
  · exact ⟨[], (List.append_nil _).symm, rfl⟩
  · rw [List.append_assoc]
    refine ⟨_, rfl, ?_⟩
    split <;> rfl

/-- A character may end the name, and apart from that elements are only ever added at the end. -/
theorem elementsAfter_eq_append (form : Form) (elements : List Token) (word : List Char) (c : Char)
    (rest : List Char) :
    ∃ more, elementsAfter form elements word c rest =
        (if endsName elements c then [.of .word (.ofChars word)] else elements) ++ more ∧
      more.all isPart := by
  generalize hnamed : (if endsName elements c then [.of .word (.ofChars word)]
    else elements) = named
  have hsized : ∃ size, (if form.sized && endsName elements c && c = '[' then
      named ++ [.of .size (.ofChars (sizeText rest))] else named) = named ++ size ∧
        size.all isPart := by
    split
    · exact ⟨_, rfl, rfl⟩
    · exact ⟨[], (List.append_nil _).symm, rfl⟩
  obtain ⟨size, hsized, hsize⟩ := hsized
  obtain ⟨type, htyped, htype⟩ := withType_eq_append form (named ++ size) rest
  obtain ⟨value, hvalued, hvalue⟩ := withValue_eq_append (named ++ size) rest
  simp only [elementsAfter, hnamed, hsized]
  by_cases hcolon : c = ':'
  · subst hcolon
    refine ⟨size ++ type, ?_, by rw [List.all_append, hsize, htype]; rfl⟩
    rw [if_pos rfl, if_neg (by decide), htyped, List.append_assoc]
  · rw [if_neg hcolon]
    split
    · refine ⟨size ++ value, ?_, by rw [List.all_append, hsize, hvalue]; rfl⟩
      rw [hvalued, List.append_assoc]
    · exact ⟨size, rfl, hsize⟩

theorem elementsAfter_ne_nil (hne : elements ≠ []) (word : List Char) (c : Char)
    (rest : List Char) :
    elementsAfter form elements word c rest ≠ [] := by
  obtain ⟨more, hafter, -⟩ := elementsAfter_eq_append form elements word c rest
  rw [hafter, endsName_of_ne_nil hne, if_neg (by decide)]
  exact List.append_ne_nil_of_left_ne_nil hne more

/-- Once there is a name, the word no longer counts. -/
theorem elementsFrom_word (hne : elements ≠ []) (word other : List Char) :
    elementsFrom form elements word rest = elementsFrom form elements other rest := by
  induction rest generalizing elements word other with
  | nil => rfl
  | cons c rest ih =>
      have hafter : ∀ word, elementsAfter form elements word c rest =
          elementsAfter form elements [] c rest := by
        intro word
        simp only [elementsAfter, endsName_of_ne_nil hne, Bool.false_eq_true, if_false]
      have hkept : elementsAfter form elements [] c rest ≠ [] := elementsAfter_ne_nil hne [] c rest
      simp only [elementsFrom, hafter word, hafter other]
      split
      · exact ih hne ..
      · split
        · rfl
        · exact ih hkept ..

/-- Behind the name, what is neither a colon nor an equals sign is passed over. -/
theorem elementsFrom_skip (hne : elements ≠ []) (hopen : Open form elements)
    (hcolon : ':' ∉ chunk) (hequals : '=' ∉ chunk) :
    elementsFrom form elements word (chunk ++ rest) = elementsFrom form elements [] rest := by
  induction chunk generalizing word with
  | nil => exact elementsFrom_word hne ..
  | cons c others ih =>
      rw [List.mem_cons, not_or] at hcolon hequals
      rw [List.cons_append, elementsFrom]
      have hafter : elementsAfter form elements word c (others ++ rest) = elements := by
        simp [elementsAfter, endsName_of_ne_nil hne, Ne.symm hcolon.1, Ne.symm hequals.1]
      split
      · exact ih hcolon.2 hequals.2
      · simp only [hafter, if_neg hopen.not_complete]
        exact ih hcolon.2 hequals.2

/-! ## The four marks -/

/-- A reading goes on from some elements, unless these are enough. -/
def continued (form : Form) (elements : List Token) (rest : List Char) : List Token :=
  if elements.length = form.complete || elements.length = form.complete + 1 then elements
  else elementsFrom form elements [] rest

theorem continued_of_complete {extra : Nat} (hextra : extra ≤ 1)
    (hlength : elements.length = form.complete + extra) :
    continued form elements rest = elements := by
  unfold continued
  rw [if_pos]
  simp only [Bool.or_eq_true, decide_eq_true_eq]
  omega

theorem continued_of_open (hopen : Open form elements) :
    continued form elements rest = elementsFrom form elements [] rest :=
  if_neg hopen.not_complete

/-- One visited character, when there is a name before or after it. -/
theorem elementsFrom_cons {c : Char} (hspace : c ≠ ' ')
    (hne : elementsAfter form elements word c rest ≠ []) :
    elementsFrom form elements word (c :: rest) =
      continued form (elementsAfter form elements word c rest) rest := by
  simp only [elementsFrom, if_neg hspace, continued]
  rw [elementsFrom_word hne _ []]

/-- A colon ends the name, if there is none yet, and its type is looked for. -/
theorem elementsFrom_name_colon :
    elementsFrom form [] word (':' :: rest) =
      continued form (withType form [.of .word (.ofChars word)] rest) rest := by
  have hafter : elementsAfter form [] word ':' rest =
      withType form [.of .word (.ofChars word)] rest := by
    simp [elementsAfter, endsName]
  rw [elementsFrom_cons (by decide) ?_, hafter]
  rw [hafter]
  unfold withType
  split <;> simp

theorem elementsFrom_colon (hne : elements ≠ []) :
    elementsFrom form elements word (':' :: rest) =
      continued form (withType form elements rest) rest := by
  have hafter : elementsAfter form elements word ':' rest = withType form elements rest := by
    simp [elementsAfter, endsName_of_ne_nil hne]
  rw [elementsFrom_cons (by decide) (elementsAfter_ne_nil hne _ _ _), hafter]

/-- A bracket ends the name and gives a size. -/
theorem elementsFrom_bracket (hsized : form.sized = true) :
    elementsFrom form [] word ('[' :: rest) =
      continued form [.of .word (.ofChars word), .of .size (.ofChars (sizeText rest))] rest := by
  have hafter : elementsAfter form [] word '[' rest =
      [.of .word (.ofChars word), .of .size (.ofChars (sizeText rest))] := by
    simp [elementsAfter, endsName, hsized]
  rw [elementsFrom_cons (by decide) (by simp [hafter]), hafter]

theorem elementsFrom_equals (hne : elements ≠ []) :
    elementsFrom form elements word ('=' :: rest) =
      continued form (withValue elements rest) rest := by
  have hafter : elementsAfter form elements word '=' rest = withValue elements rest := by
    simp [elementsAfter, endsName_of_ne_nil hne]
  rw [elementsFrom_cons (by decide) (elementsAfter_ne_nil hne _ _ _), hafter]

end LineCompiler.Declaration
