import LineCompiler.Proofs.Source.Comment
import LineCompiler.Proofs.Token.Step
import LineCompiler.Token.Stream

/-!
# What the scan gives

Three facts hold of every line that is scanned without a fault (`Sound`).  None of its tokens is
blank.  If its first token is that of a keyword, then its value is the label of one.  And if its
first token is that of a statement word, then the other tokens are exactly what the reader of that
statement made of the text after the word.

The last fact needs that a statement word is recognised as the first token of its line only where
its statement ends the scan, so that no token can come in between: before that, the first token is
always another one (`Unopened`).  As long as there is no token at all, the word is all that has been
read of the line, so the text before the statement spells its word (`Finds`).

A source is scanned line by line, each line with the names that the lines before it have left
(`Lexed.scan_split`).
-/

namespace LineCompiler

namespace Scan

/-- What holds of the tokens of every line that is scanned. -/
structure Sound (line : SourceLine) (tokens : List Token) : Prop where
  noBlank : .blank ∉ tokens
  labelled : Labelled tokens
  opened : ∀ opener : Opener, tokens.head? = some (.keyword opener.keyword) →
    ∃ rest elements, opener.elements line rest = .ok elements ∧
      tokens = .keyword opener.keyword :: elements

variable {line : SourceLine} {tokens more : List Token}

theorem Unopened.sound (htokens : Unopened tokens) : Sound line tokens where
  noBlank := htokens.noBlank
  labelled := htokens.labelled
  opened opener hfirst := absurd hfirst (htokens.first opener)

private theorem sound_opener {opener : Opener} {rest : List Char} {elements : List Token}
    (helements : opener.elements line rest = .ok elements) :
    Sound line (.keyword opener.keyword :: elements) where
  noBlank := by
    rw [List.mem_cons, not_or]
    exact ⟨by simp [Token.keyword],
      Token.blank_not_mem_of_all_isElement (Opener.all_isElement_elements helements)⟩
  labelled value hfirst := by
    injection Option.some.inj hfirst with _ hvalue
    exact ⟨opener.keyword, hvalue.symm⟩
  opened other hfirst := by
    have hsame : other = opener := by
      have htoken := Opener.ofToken?_keyword other
      rw [← Option.some.inj hfirst, Opener.ofToken?_keyword] at htoken
      exact (Option.some.inj htoken).symm
    subst hsame
    exact ⟨rest, elements, helements, rfl⟩

/-! ## How the scan of a line ends -/

/-- What a word that ends the scan of its line leaves: the tokens of its statement, or tokens of
which the first is another one. -/
theorem Recognised.done {rest : List Char} {state after : State} {declared : Names}
    (hstate : Unopened state.tokens) (hstep : Recognised line rest state (.done after declared)) :
    (∃ opener elements, Keyword.ofWord? state.word = some (Opener.keyword opener) ∧
        state.tokens = [] ∧ opener.elements line rest = .ok elements ∧
        after.tokens = .keyword opener.keyword :: elements ∧ declared = opener.declares elements) ∨
      Unopened after.tokens ∧ declared = {} := by
  cases hstep with
  | statement opener elements hword htokens helements =>
      exact Or.inl ⟨opener, elements, hword, htokens, helements, rfl, rfl⟩
  | late opener hopener htokens =>
      exact Or.inr ⟨hstate.append_of_ne_nil htokens (by simp [Token.keyword]), rfl⟩
  | operation elements helements =>
      have hmul : Unopened (state.tokens ++ [.keyword .mul]) := hstate.append (unopened_keyword rfl)
      exact Or.inr ⟨hmul.append_of_ne_nil (by simp)
        (Token.blank_not_mem_of_all_isElement helements), rfl⟩

/-- What the move that ends the scan of a line leaves. -/
theorem Move.done {c : Char} {rest : List Char} {state after : State} {declared : Names}
    (hstate : Unopened state.tokens) (hmove : Move line state c rest (.done after declared)) :
    (∃ opener elements, c ≠ ' ' ∧ c ≠ Text.openBrace ∧
        Keyword.ofWord? (state.word ++ [c]) = some (Opener.keyword opener) ∧
        state.tokens = [] ∧ opener.elements line rest = .ok elements ∧
        after.tokens = .keyword opener.keyword :: elements ∧ declared = opener.declares elements) ∨
      Unopened after.tokens ∧ declared = {} := by
  cases hmove with
  | comment text =>
      have hcomment : Unopened [.of (.mark .comment) (.text "//"), .of .comment text] :=
        (unopened_other (by simp) _).append (unopened_other (by simp) _)
      exact Or.inr ⟨hstate.append hcomment, rfl⟩
  | word hspace hbrace hstep =>
      refine (hstep.done ?_).imp_left ?_
      · exact hstate
      · rintro ⟨opener, elements, hword, htokens, helements, hafter⟩
        exact ⟨opener, elements, hspace, hbrace, hword, htokens, helements, hafter⟩
  | ending hstep =>
      refine (hstep.done ?_).imp_left ?_
      · exact hstate.append (unopened_other (by simp) _)
      · rintro ⟨opener, elements, hword, htokens, helements, hafter⟩
        -- The semicolon itself is a token before the word.
        exact absurd htokens (by simp [State.endStatement, State.push])

/-! ## What stands before a statement -/

/-- The characters of a text that count towards a word. -/
def letters (text : List Char) : List Char :=
  text.filter fun c => c ≠ ' ' && c ≠ Text.openBrace

theorem letters_append (text more : List Char) :
    letters (text ++ more) = letters text ++ letters more :=
  List.filter_append ..

private theorem letters_passed {c : Char} (hc : c = ' ' ∨ c = Text.openBrace) :
    letters [c] = [] := by
  rcases hc with rfl | rfl <;> rfl

theorem letters_joined {c : Char} (hspace : c ≠ ' ') (hbrace : c ≠ Text.openBrace) :
    letters [c] = [c] := by
  simp [letters, hspace, hbrace]

/-- While there are no tokens, the word is all that has been read of the line. -/
def Spelled (line : SourceLine) (chars : List Char) (state : State) : Prop :=
  state.tokens = [] → ∃ front, line.content.toList = front ++ chars ∧ letters front = state.word

/-- A text that spells a statement word and ends with it. -/
structure SpelledBy (opener : Opener) (front : List Char) : Prop where
  letters : letters front = opener.spelling
  last : front.getLast? = opener.spelling.getLast?

theorem SpelledBy.mem {opener : Opener} {front : List Char} (hfront : SpelledBy opener front)
    {c : Char} (hc : c ∈ front) : c = ' ' ∨ c = Text.openBrace ∨ c ∈ opener.spelling := by
  by_cases hpassed : c = ' ' ∨ c = Text.openBrace
  · exact hpassed.imp_right Or.inl
  · rw [not_or] at hpassed
    rw [← hfront.letters, Scan.letters, List.mem_filter]
    exact Or.inr (Or.inr ⟨hc, by simp [hpassed.1, hpassed.2]⟩)

/-- The text up to a statement word has no part in the look for a comment. -/
theorem SpelledBy.stripComment_append {opener : Opener} {front : List Char}
    (hfront : SpelledBy opener front) (rest : List Char) :
    Source.stripComment (front ++ rest) = front ++ Source.stripComment rest := by
  have hinert : front.all Source.isInert := by
    rw [List.all_eq_true]
    intro c hc
    rcases hfront.mem hc with rfl | rfl | hspelling
    · rfl
    · rfl
    · have hspelled : opener.spelling.all Source.isInert = true := by cases opener <;> rfl
      exact List.all_eq_true.mp hspelled c hspelling
  have hlast := hfront.last
  cases opener <;> exact Source.stripComment_append hinert hlast (by decide) rest

/-- What the scan of a line finds. -/
inductive Finds (line : SourceLine) : Scanned → Prop
  /-- A line that opens with a statement word: what the reader of the statement made of the text
  behind the word. -/
  | statement {opener : Opener} {front rest : List Char} {elements : List Token} (blocks : Blocks)
      (hcontent : line.content.toList = front ++ rest) (hfront : SpelledBy opener front)
      (helements : opener.elements line rest = .ok elements) :
      Finds line ⟨.keyword opener.keyword :: elements, opener.declares elements, blocks⟩
  /-- Any other line. -/
  | other {tokens : List Token} (blocks : Blocks) (htokens : Unopened tokens) :
      Finds line ⟨tokens, {}, blocks⟩

/-- A line that is scanned is sound. -/
theorem Finds.sound {scanned : Scanned} (hfinds : Finds line scanned) :
    Sound line scanned.tokens := by
  cases hfinds with
  | statement blocks hcontent hfront helements => exact sound_opener helements
  | other blocks htokens => exact htokens.sound

theorem spelled_next {c : Char} {rest : List Char} {before after : State}
    (hbefore : Spelled line (c :: rest) before) (hmove : Move line before c rest (.next after)) :
    Spelled line rest after := by
  intro htokens
  cases hmove with
  | pass hc =>
      obtain ⟨front, hcontent, hfront⟩ := hbefore htokens
      exact ⟨front ++ [c], by simp [hcontent], by simp [letters_append, letters_passed hc, hfront]⟩
  | openBrace | closeFirst | closeSecond => exact absurd htokens (by simp [State.push])
  | word hspace hbrace hstep => cases hstep
  | ending hstep => cases hstep

theorem spelled_compare {names : Names} {c : Char} {rest : List Char} {before after : State}
    (hbefore : Spelled line (c :: rest) before) (hmove : Move line before c rest (.compare after)) :
    Spelled line rest (identify names after) := by
  intro htokens
  have hafter : after.tokens = [] := (List.append_eq_nil_iff.mp htokens).1
  cases hmove with
  | word hspace hbrace hstep =>
      cases hstep with
      | word =>
          obtain ⟨front, hcontent, hfront⟩ := hbefore hafter
          refine ⟨front ++ [c], by simp [hcontent], ?_⟩
          rw [letters_append, hfront, letters_joined hspace hbrace]
          rfl
      | keyword | second | lateConditional => exact absurd hafter (by simp [State.push])
  | ending hstep =>
      cases hstep <;> exact absurd hafter (by simp [State.push, State.endStatement])

/-- **What a line is made of.**  The tokens of a statement come from the text behind its word, and
the line declares what they say; a line without a statement declares nothing. -/
theorem finds_scanLine {names : Names} {blocks : Blocks} {scanned : Scanned}
    (hline : (scanLine names blocks line).outcome = .ok scanned) : Finds line scanned := by
  apply run_induction (motive := Spelled line) hline unopened_nil
  · exact fun _ => ⟨[], rfl, rfl⟩
  · exact fun c rest before after => spelled_next
  · exact fun c rest before after => spelled_compare
  · intro c rest before after declared hunopened hbefore hmove
    rcases hmove.done hunopened with
      ⟨opener, elements, hspace, hbrace, hword, htokens, helements, hafter, rfl⟩ | ⟨hafter, rfl⟩
    · obtain ⟨front, hcontent, hfront⟩ := hbefore htokens
      have hspelling := Opener.eq_spelling hword
      rw [hafter]
      refine .statement after.blocks (show _ = (front ++ [c]) ++ rest by simp [hcontent]) ⟨?_, ?_⟩
        helements
      · rw [letters_append, hfront, letters_joined hspace hbrace, hspelling]
      · rw [← hspelling, List.getLast?_concat, List.getLast?_concat]
    · exact .other _ hafter
  · exact fun after hafter _ => .other _ hafter

end Scan

/-! ## The lines of a source -/

namespace Lexed

variable {names : Names} {blocks : Blocks} {source : List SourceLine} {front back : List TokenLine}
  {line : TokenLine}

/-- A line that is kept has been scanned with the names that the lines before it have left. -/
theorem scan_split (hlines : (scan names blocks source).lines = front ++ line :: back) :
    ∃ last scanned, (scan names blocks (front.map TokenLine.line)).lines = front ∧
      (Scan.scanLine (scan names blocks (front.map TokenLine.line)).names last line.line).outcome =
        .ok scanned ∧ line.tokens = scanned.tokens := by
  induction source generalizing names blocks front with
  | nil => exact absurd hlines (by simp [scan])
  | cons first rest ih =>
      cases houtcome : (Scan.scanLine names blocks first).outcome with
      | error fault =>
          simp only [scan, houtcome] at hlines
          exact absurd hlines (by simp)
      | ok scanned =>
          simp only [scan, houtcome] at hlines
          cases front with
          | nil =>
              obtain ⟨rfl, -⟩ := List.cons.inj hlines
              exact ⟨blocks, scanned, rfl, houtcome, rfl⟩
          | cons head front =>
              obtain ⟨rfl, hrest⟩ := List.cons.inj hlines
              obtain ⟨last, found, hfront, hline, htokens⟩ := ih hrest
              refine ⟨last, found, ?_, ?_, htokens⟩
              · simp only [List.map_cons, scan, houtcome, hfront]
              · simp only [List.map_cons, scan, houtcome]
                exact hline

/-- What the scan has found on a line that is kept. -/
theorem finds_of_mem (hline : line ∈ (scan names blocks source).lines) :
    ∃ scanned, Scan.Finds line.line scanned ∧ line.tokens = scanned.tokens := by
  obtain ⟨front, back, hlines⟩ := List.append_of_mem hline
  obtain ⟨last, scanned, -, hscan, htokens⟩ := scan_split hlines
  exact ⟨scanned, Scan.finds_scanLine hscan, htokens⟩

/-- **Every scanned line is sound.** -/
theorem sound_of_mem (hline : line ∈ (scan names blocks source).lines) :
    Scan.Sound line.line line.tokens := by
  obtain ⟨scanned, hfinds, htokens⟩ := finds_of_mem hline
  rw [htokens]
  exact hfinds.sound

end Lexed

end LineCompiler
