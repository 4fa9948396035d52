import LineCompiler.Proofs.Text.Trim
import LineCompiler.Proofs.Token.Declaration

/-!
# Where a value ends

The reader of a value goes from character to character with the quote in force, and stops at the
first semicolon or line feed outside quotes (`valueText?_eq_some_iff`).  A backslash means nothing
to it.

A value among the elements of a declaration always stands behind an equals sign
(`isValueIn_of_mem`).
-/

namespace LineCompiler.Declaration

open Text

/-- The quote in force behind a text. -/
def quoteBehind (quote : Option Char) (text : List Char) : Option Char :=
  text.foldl quoteAfter quote

@[simp] theorem quoteBehind_nil (quote : Option Char) : quoteBehind quote [] = quote := rfl

@[simp] theorem quoteBehind_cons (quote : Option Char) (c : Char) (text : List Char) :
    quoteBehind quote (c :: text) = quoteBehind (quoteAfter quote c) text := rfl

theorem quoteBehind_append (quote : Option Char) (first second : List Char) :
    quoteBehind quote (first ++ second) = quoteBehind (quoteBehind quote first) second :=
  List.foldl_append ..

theorem quoteBehind_of_not_mem {quote : Char} {text : List Char} (htext : quote ∉ text) :
    quoteBehind (some quote) text = some quote := by
  induction text with
  | nil => rfl
  | cons c rest ih =>
      rw [List.mem_cons, not_or] at htext
      rw [quoteBehind_cons, quoteAfter, if_neg (Ne.symm htext.1), ih htext.2]

/-- No quote, or one of the two. -/
def IsQuote (quote : Option Char) : Prop :=
  quote ∈ [none, some singleQuote, some doubleQuote]

theorem IsQuote.after {quote : Option Char} (hquote : IsQuote quote) (c : Char) :
    IsQuote (quoteAfter quote c) := by
  cases quote with
  | none =>
      rw [quoteAfter]
      split
      · rename_i hc
        simpa [IsQuote] using hc
      · exact hquote
  | some opened =>
      rw [quoteAfter]
      split
      · exact List.mem_cons_self ..
      · exact hquote

/-- Whether a value ends at a character, where `front` stands before it: it is a semicolon or a line
feed, and no quote is in force there. -/
def EndsAt (quote : Option Char) (front : List Char) (c : Char) : Prop :=
  (c = ';' ∨ c = '\n') ∧ quoteBehind quote front = none

theorem endsAt_nil_iff {quote : Option Char} (hquote : IsQuote quote) {c : Char} :
    EndsAt quote [] c ↔ ((quoteAfter quote c).isNone && (c = ';' || c = '\n')) = true := by
  have hsame : c = ';' ∨ c = '\n' → quoteAfter quote c = quote := by
    simp only [IsQuote, List.mem_cons, List.not_mem_nil, or_false] at hquote
    rintro (rfl | rfl) <;> rcases hquote with rfl | rfl | rfl <;> rfl
  simp only [EndsAt, quoteBehind_nil, Bool.and_eq_true, Option.isNone_iff_eq_none, Bool.or_eq_true,
    decide_eq_true_eq]
  constructor
  · rintro ⟨hmark, hnone⟩
    exact ⟨(hsame hmark).trans hnone, hmark⟩
  · rintro ⟨hnone, hmark⟩
    exact ⟨hmark, (hsame hmark).symm.trans hnone⟩

section Ends

variable {quote : Option Char} {text value : List Char} {ending : Char}

theorem valueText?_sound (hquote : IsQuote quote)
    (hfound : valueText? quote text = some (value, ending)) :
    (∃ rest, text = value ++ ending :: rest) ∧ EndsAt quote value ending ∧
      ∀ front c back, value = front ++ c :: back → ¬ EndsAt quote front c := by
  induction text generalizing quote value with
  | nil => cases hfound
  | cons c rest ih =>
      rw [valueText?] at hfound
      split at hfound
      · rename_i hends
        cases hfound
        refine ⟨⟨rest, rfl⟩, (endsAt_nil_iff hquote).mpr hends, fun front d back hnil => ?_⟩
        exact absurd hnil (by simp)
      · rename_i hgoes
        obtain ⟨⟨tail, last⟩, htail, heq⟩ := Option.map_eq_some_iff.mp hfound
        cases heq
        obtain ⟨⟨behind, hrest⟩, hends, hfirst⟩ := ih (hquote.after c) htail
        refine ⟨⟨behind, by rw [hrest, List.cons_append]⟩, hends,
          fun front d back hsplit hbefore => ?_⟩
        cases front with
        | nil =>
            cases hsplit
            exact hgoes ((endsAt_nil_iff hquote).mp hbefore)
        | cons d' front =>
            cases hsplit
            exact hfirst front d back rfl hbefore

private theorem valueText?_complete (hquote : IsQuote quote) (hends : EndsAt quote value ending)
    (hfirst : ∀ front c back, value = front ++ c :: back → ¬ EndsAt quote front c)
    (rest : List Char) :
    valueText? quote (value ++ ending :: rest) = some (value, ending) := by
  induction value generalizing quote with
  | nil => exact if_pos ((endsAt_nil_iff hquote).mp hends)
  | cons c tail ih =>
      have hgoes := mt (endsAt_nil_iff hquote).mpr (hfirst [] c tail rfl)
      have htail : valueText? (quoteAfter quote c) (tail ++ ending :: rest) = some (tail, ending) :=
        ih (hquote.after c) hends fun front d back hsplit =>
          hfirst (c :: front) d back (by rw [hsplit, List.cons_append])
      rw [List.cons_append, valueText?]
      simp only [if_neg hgoes, htail, Option.map_some]

/-- **A value ends at the first place where it can.** -/
theorem valueText?_eq_some_iff (hquote : IsQuote quote) :
    valueText? quote text = some (value, ending) ↔
      (∃ rest, text = value ++ ending :: rest) ∧ EndsAt quote value ending ∧
        ∀ front c back, value = front ++ c :: back → ¬ EndsAt quote front c := by
  constructor
  · exact valueText?_sound hquote
  · rintro ⟨⟨rest, rfl⟩, hends, hfirst⟩
    exact valueText?_complete hquote hends hfirst rest

/-- A value is found if there is a place where it can end. -/
theorem exists_valueText? (hquote : IsQuote quote) (hends : EndsAt quote value ending)
    (rest : List Char) :
    ∃ found, valueText? quote (value ++ ending :: rest) = some found := by
  induction value generalizing quote with
  | nil => exact ⟨_, if_pos ((endsAt_nil_iff hquote).mp hends)⟩
  | cons c tail ih =>
      obtain ⟨found, hfound⟩ := ih (hquote.after c) hends
      rw [List.cons_append, valueText?, hfound]
      split
      · exact ⟨_, rfl⟩
      · exact ⟨_, rfl⟩

end Ends

/-! ## Values among the elements -/

/-- A value that stands behind an equals sign of a text. -/
def IsValueIn (text : List Char) (value : Atom) : Prop :=
  ∃ front rest found ending, text = front ++ '=' :: rest ∧
    valueText? none rest = some (found, ending) ∧
    value = .ofChars (strip found)

/-- A value that stands behind an equals sign stands behind the first one or another one behind
that. -/
theorem IsValueIn.exists_behind {front rest : List Char} {value : Atom} (hfront : '=' ∉ front)
    (hvalue : IsValueIn (front ++ '=' :: rest) value) :
    ∃ tail found ending, (tail = rest ∨ ∃ between, rest = between ++ '=' :: tail) ∧
      valueText? none tail = some (found, ending) ∧ value = .ofChars (strip found) := by
  obtain ⟨before, tail, found, ending, hsplit, hfound⟩ := hvalue
  refine ⟨tail, found, ending, ?_, hfound⟩
  rcases List.append_eq_append_iff.mp hsplit with ⟨between, -, hrest⟩ | ⟨between, hbefore, htail⟩
  · cases between with
    | nil =>
        cases hrest
        exact Or.inl rfl
    | cons c between =>
        cases hrest
        exact Or.inr ⟨between, rfl⟩
  · cases between with
    | nil =>
        cases htail
        exact Or.inl rfl
    | cons c between =>
        cases htail
        exact absurd (hbefore ▸ List.mem_append_right before (List.mem_cons_self ..)) hfront

/-- A value is shorter than the text it is read from. -/
theorem length_strip_lt {text value : List Char} {ending : Char}
    (hfound : valueText? none text = some (value, ending)) :
    (strip value).length < text.length := by
  obtain ⟨⟨rest, rfl⟩, -⟩ := valueText?_sound (List.mem_cons_self ..) hfound
  have hstrip := length_trim_le isBlank value
  rw [List.length_append, List.length_cons, strip]
  omega

section Members

variable {form : Form} {elements : List Token} {word rest : List Char} {value : Atom}

theorem IsValueIn.cons {text : List Char} (hvalue : IsValueIn text value) (c : Char) :
    IsValueIn (c :: text) value := by
  obtain ⟨front, rest, found, ending, rfl, hfound⟩ := hvalue
  exact ⟨c :: front, rest, found, ending, rfl, hfound⟩

private theorem value_mem_withType :
    .of .value value ∈ withType form elements rest ↔ .of .value value ∈ elements := by
  unfold withType
  split
  · rfl
  · have hsymbol : Token.of .value value ≠ .symbol .semicolon := by simp [Token.symbol]
    split <;> split <;> simp [hsymbol]

private theorem value_mem_withValue (hmem : .of .value value ∈ withValue elements rest) :
    .of .value value ∈ elements ∨ IsValueIn ('=' :: rest) value := by
  unfold withValue at hmem
  split at hmem
  · exact Or.inl hmem
  · rename_i found ending hfound
    rw [List.append_assoc, List.mem_append] at hmem
    refine hmem.imp_right fun hadded => ⟨[], rest, found, ending, rfl, hfound, ?_⟩
    have hsymbol : Token.of .value value ≠ .symbol .semicolon := by simp [Token.symbol]
    split at hadded <;> simpa [hsymbol] using hadded

theorem value_mem_elementsAfter {c : Char}
    (hmem : .of .value value ∈ elementsAfter form elements word c rest) :
    .of .value value ∈ elements ∨ IsValueIn (c :: rest) value := by
  have hnamed : .of .value value ∈ (if endsName elements c then [.of .word (.ofChars word)]
      else elements) →
      .of .value value ∈ elements := by
    split <;> simp
  have hsized : .of .value value ∈ (if form.sized && endsName elements c && c = '[' then
        (if endsName elements c then [.of .word (.ofChars word)] else elements) ++
          [.of .size (.ofChars (sizeText rest))]
      else if endsName elements c then [.of .word (.ofChars word)] else elements) →
      .of .value value ∈ elements := by
    split
    · simpa using hnamed
    · exact hnamed
  unfold elementsAfter at hmem
  dsimp only at hmem
  by_cases hequals : c = '='
  · subst hequals
    rw [if_neg (show '=' ≠ ':' by decide), if_pos rfl] at hmem
    exact (value_mem_withValue hmem).imp_left hsized
  · rw [if_neg hequals] at hmem
    refine Or.inl ?_
    split at hmem
    · exact hsized (value_mem_withType.mp hmem)
    · exact hsized hmem

/-- **A value among the elements** stands behind an equals sign. -/
theorem isValueIn_of_mem {text : List Char}
    (hmem : .of .value value ∈ elementsFrom form elements word text) :
    .of .value value ∈ elements ∨ IsValueIn text value := by
  induction text generalizing elements word with
  | nil => exact Or.inl hmem
  | cons c text ih =>
      simp only [elementsFrom] at hmem
      split at hmem
      · exact (ih hmem).imp_right fun hvalue => hvalue.cons c
      · split at hmem
        · exact value_mem_elementsAfter hmem
        · rcases ih hmem with hbefore | hvalue
          · exact value_mem_elementsAfter hbefore
          · exact Or.inr (hvalue.cons c)

end Members

end LineCompiler.Declaration
