import LineCompiler.Proofs.Token.Plain

/-!
# What a step of a scan does

A scan visits the characters of a line one by one, and at most characters nothing happens but that
the word grows.  `Move` lists all that a step can do: it passes over a character, adds the token of
a brace, ends the line at a comment, stops with a fault, or compares the word with the keywords
(`Recognised`).  Every invariant of a scan is then a case analysis over moves (`run_induction`).

The list is complete while the line is `Unopened`: its first token is not that of a statement word,
since the statement of such a word ends the scan.
-/

namespace LineCompiler.Scan

variable {names : Names} {line : SourceLine} {first : Bool} {state : State}
  {tokens more : List Token}

/-! ## Lines without a statement word -/

/-- The first token, if it is that of a keyword, has the label of one. -/
def Labelled (tokens : List Token) : Prop :=
  ∀ value, tokens.head? = some (.of .keyword value) →
    ∃ keyword : Keyword, value = .text keyword.label

/-- Tokens of which the first is not that of a statement word. -/
structure Unopened (tokens : List Token) : Prop where
  noBlank : .blank ∉ tokens
  labelled : Labelled tokens
  first : ∀ opener : Opener, tokens.head? ≠ some (.keyword opener.keyword)

theorem unopened_nil : Unopened [] :=
  ⟨by simp, fun _ => nofun, fun _ => nofun⟩

theorem Unopened.append (htokens : Unopened tokens) (hmore : Unopened more) :
    Unopened (tokens ++ more) := by
  have hblank : .blank ∉ tokens ++ more := by simp [htokens.noBlank, hmore.noBlank]
  cases tokens with
  | nil => exact ⟨hblank, hmore.labelled, hmore.first⟩
  | cons first rest => exact ⟨hblank, htokens.labelled, htokens.first⟩

theorem Unopened.append_of_ne_nil (htokens : Unopened tokens) (hne : tokens ≠ [])
    (hmore : .blank ∉ more) : Unopened (tokens ++ more) := by
  have hblank : .blank ∉ tokens ++ more := by simp [htokens.noBlank, hmore]
  cases tokens with
  | nil => exact absurd rfl hne
  | cons first rest => exact ⟨hblank, htokens.labelled, htokens.first⟩

/-- A token that is not that of a keyword. -/
theorem unopened_other {kind : TokenKind} (hkind : kind ≠ .keyword) (value : Atom) :
    Unopened [.of kind value] := by
  refine ⟨by simp, fun other hfirst => ?_, fun opener hfirst => ?_⟩
  · injection Option.some.inj hfirst with hsame
    exact absurd hsame hkind
  · injection Option.some.inj hfirst with hsame
    exact absurd hsame hkind

/-- The token of a keyword that is not a statement word. -/
theorem unopened_keyword {keyword : Keyword}
    (hkeyword : Opener.ofToken? (.keyword keyword) = none) :
    Unopened [.keyword keyword] := by
  refine ⟨by simp [Token.keyword], fun value hfirst => ?_, fun opener hfirst => ?_⟩
  · injection Option.some.inj hfirst with _ hvalue
    exact ⟨keyword, hvalue.symm⟩
  · rw [Option.some.inj hfirst, Opener.ofToken?_keyword] at hkeyword
    exact nomatch hkeyword

theorem unopened_nameTokens (names : Names) (word : List Char) :
    Unopened (nameTokens names word) := by
  have hpiece : ∀ kind : TokenKind, kind ≠ .keyword → ∀ present : Bool,
      Unopened (if present then [.of kind (.text (String.ofList word))] else []) := by
    intro kind hkind present
    cases present with
    | false => exact unopened_nil
    | true => exact unopened_other hkind _
  exact (((hpiece .constantName (by simp) _).append (hpiece .variableName (by simp) _)).append
    (hpiece .pointerName (by simp) _)).append (hpiece .functionName (by simp) _)

/-! ## Moves -/

/-- What becomes of the word of a state when it is compared with the keywords; `rest` follows it. -/
inductive Recognised (line : SourceLine) (rest : List Char) (state : State) : Step → Prop
  /-- The word is no keyword. -/
  | word : Recognised line rest state (.compare state)
  /-- The word is a keyword with which no statement and no block begins. -/
  | keyword (keyword : Keyword) (hkeyword : Opener.ofToken? (.keyword keyword) = none)
      (halt : keyword ≠ .alt) :
      Recognised line rest state (.compare { state.push [.keyword keyword] with word := [] })
  /-- The second block of a conditional begins. -/
  | second (hlast : state.blocks.lastWasIf = true) :
      Recognised line rest state
        (.compare { state.push [.keyword .alt] with word := [], blocks := ⟨false, true, false⟩ })
  /-- The statement of a word that stands first on its line. -/
  | statement (opener : Opener) (elements : List Token)
      (hword : Keyword.ofWord? state.word = some opener.keyword) (htokens : state.tokens = [])
      (helements : opener.elements line rest = .ok elements) :
      Recognised line rest state
        (.done
          { state with
            tokens := .keyword opener.keyword :: elements
            blocks := opener.blocksAfter state.blocks }
          (opener.declares elements))
  /-- A conditional behind other tokens. -/
  | lateConditional (htokens : state.tokens ≠ []) :
      Recognised line rest state
        (.compare { state.push [.keyword .cond] with blocks := { state.blocks with inIf := true } })
  /-- Another statement word behind other tokens. -/
  | late (opener : Opener) (hopener : opener ≠ .cond) (htokens : state.tokens ≠ []) :
      Recognised line rest state (.done (state.push [.keyword opener.keyword]) {})
  | operation (elements : List Token) (helements : elements.all Token.isElement)
      (hread : Operation.read (state.push [.keyword .mul]).tokens line.content.toList =
        .ok elements) :
      Recognised line rest state (.done ((state.push [.keyword .mul]).push elements) {})
  | fail (after : State) (fault : Fault) : Recognised line rest state (.fail after fault)

/-- What a scan does at the character `c`, which `rest` follows. -/
inductive Move (line : SourceLine) (state : State) (c : Char) (rest : List Char) : Step → Prop
  /-- A space, or an opening brace at the end of the line. -/
  | pass (hc : c = ' ' ∨ c = Text.openBrace) : Move line state c rest (.next state)
  | openBrace (hc : c = Text.openBrace) :
      Move line state c rest (.next (state.push [.symbol .openBrace]))
  | closeFirst (hfirst : state.blocks.inIf = true) (hc : c = Text.closeBrace) :
      Move line state c rest
        (.next { state.push [.symbol .closeBrace] with
          blocks := { state.blocks with inIf := false, lastWasIf := true } })
  | closeSecond (hfirst : state.blocks.inIf = false) (hsecond : state.blocks.inElse = true)
      (hc : c = Text.closeBrace) :
      Move line state c rest
        (.next { state.push [.symbol .closeBrace] with
          blocks := { state.blocks with inElse := false } })
  | comment (text : Atom) (hc : c = '/' ∧ rest.head? = some '/')
      (htext : text = .ofChars (rest.drop 1)) :
      Move line state c rest
        (.done (state.push [.of (.mark .comment) (.text "//"), .of .comment text]) {})
  /-- The character joins the word. -/
  | word {step : Step} (hspace : c ≠ ' ') (hbrace : c ≠ Text.openBrace)
      (hstep : Recognised line rest { state with word := state.word ++ [c] } step)
      (hclose : c = Text.closeBrace → state.blocks.inIf = false ∧ state.blocks.inElse = false) :
      Move line state c rest step
  /-- A semicolon that ends its statement, and then joins the word. -/
  | ending {step : Step}
      (hstep : Recognised line rest { state.endStatement with word := [c] } step) :
      Move line state c rest step
  | fail (after : State) (fault : Fault) : Move line state c rest (.fail after fault)

/-! ## Every step is a move -/

private theorem recognised_opener (hstate : Unopened state.tokens) (opener : Opener)
    (rest : List Char) (hword : Keyword.ofWord? state.word = some opener.keyword) :
    Recognised line rest state (recognise line rest state) := by
  cases htokens : state.tokens with
  | nil =>
      rw [recognise_first opener rest hword htokens]
      cases helements : opener.elements line rest with
      | error fault => exact .fail _ fault
      | ok elements => exact .statement opener elements hword htokens helements
  | cons first others =>
      have hne : state.tokens ≠ [] := by simp [htokens]
      cases first with
      | blank => exact absurd (by simp [htokens]) hstate.noBlank
      | of kind value =>
          have hfirst : ∀ opener : Opener, Token.of kind value ≠ .keyword opener.keyword := by
            intro other heq
            exact hstate.first other (by rw [htokens, heq]; rfl)
          rw [recognise_later opener rest hword hfirst htokens]
          split
          · exact .lateConditional hne
          · rename_i hopener
            exact .late opener hopener hne

theorem recognised (hstate : Unopened state.tokens) (rest : List Char) :
    Recognised line rest state (recognise line rest state) := by
  have hopener : ∀ opener : Opener, Keyword.ofWord? state.word = some opener.keyword →
      Recognised line rest state (recognise line rest state) := fun opener =>
    recognised_opener hstate opener rest
  have hoperation : Recognised line rest state (finish (state.push [.keyword .mul])
      (Operation.read (state.push [.keyword .mul]).tokens line.content.toList) fun _ => {}) := by
    cases hread : Operation.read (state.push [.keyword .mul]).tokens line.content.toList with
    | error fault => exact .fail _ fault
    | ok elements =>
        refine .operation elements ?_ hread
        obtain ⟨opens, -, rfl⟩ := exists_of_map_eq_ok hread
        split
        · exact Operation.all_isElement_elements _
        · rfl
  cases hword : Keyword.ofWord? state.word with
  | none =>
      simp only [recognise, hword]
      exact .word
  | some keyword =>
      cases keyword with
      | const => exact hopener .const hword
      | var => exact hopener .var hword
      | ptr => exact hopener .ptr hword
      | syscall => exact hopener .syscall hword
      | cond => exact hopener .cond hword
      | mul | add | sub | div => simpa only [recognise, hword] using hoperation
      | alt =>
          simp only [recognise, hword]
          split
          · rename_i hlast
            exact .second hlast
          · exact .fail _ _
      | sizeInc | sizeDec | emt | del | into | comment =>
          simp only [recognise, hword]
          exact .keyword _ rfl (by simp)

theorem move_scanMark (hstate : Unopened state.tokens) {c : Char} (hspace : c ≠ ' ')
    (rest : List Char) : Move line state c rest (scanMark line state c rest) := by
  unfold scanMark
  split
  · exact .openBrace ‹_›
  · rename_i hbrace
    split
    · rename_i hclose
      rw [Bool.and_eq_true, decide_eq_true_eq] at hclose
      exact .closeFirst hclose.2 hclose.1
    · rename_i hfirst
      rw [Bool.and_eq_true, decide_eq_true_eq, not_and, Bool.not_eq_true] at hfirst
      split
      · rename_i hclose
        rw [Bool.and_eq_true, decide_eq_true_eq] at hclose
        exact .closeSecond (hfirst hclose.1) hclose.2 hclose.1
      · rename_i hsecond
        rw [Bool.and_eq_true, decide_eq_true_eq, not_and, Bool.not_eq_true] at hsecond
        refine .word hspace hbrace (recognised ?_ rest) fun hc => ⟨hfirst hc, hsecond hc⟩
        exact hstate

/-- **Every step is a move.** -/
theorem move_step (hstate : Unopened state.tokens) (c : Char) (rest : List Char) :
    Move line state c rest (step line first state c rest) := by
  have hends : Unopened state.endStatement.tokens := hstate.append (unopened_other (by simp) _)
  unfold step
  split
  · exact .pass (Or.inl ‹_›)
  · rename_i hspace
    split
    · rename_i hcomment
      exact .comment _ (by simpa using hcomment) rfl
    · split
      · split
        · exact .pass (Or.inr ‹_›)
        · exact .fail _ _
      · split
        · rename_i hsemicolon
          split
          · exact .fail _ _
          · subst hsemicolon
            refine .ending (recognised ?_ rest)
            exact hends
          · exact move_scanMark hstate hspace rest
        · exact move_scanMark hstate hspace rest

/-! ## What moves keep -/

/-- A line stays unopened until its scan is done. -/
def Step.Unopened : Step → Prop
  | .next state | .compare state => Scan.Unopened state.tokens
  | .done _ _ | .fail _ _ => True

theorem Recognised.unopened {rest : List Char} {step : Step} (hstate : Unopened state.tokens)
    (hstep : Recognised line rest state step) : step.Unopened := by
  cases hstep with
  | word => exact hstate
  | keyword keyword hkeyword halt => exact hstate.append (unopened_keyword hkeyword)
  | second hlast => exact hstate.append (unopened_keyword rfl)
  | lateConditional htokens =>
      exact hstate.append_of_ne_nil htokens (by simp [Token.keyword])
  | statement | late | operation | fail => trivial

theorem Move.unopened {c : Char} {rest : List Char} {step : Step} (hstate : Unopened state.tokens)
    (hmove : Move line state c rest step) : step.Unopened := by
  cases hmove with
  | pass hc => exact hstate
  | openBrace => exact hstate.append (unopened_other (by simp) _)
  | closeFirst hfirst => exact hstate.append (unopened_other (by simp) _)
  | closeSecond hfirst hsecond => exact hstate.append (unopened_other (by simp) _)
  | word hspace hbrace hstep =>
      refine hstep.unopened ?_
      exact hstate
  | ending hstep =>
      refine hstep.unopened ?_
      exact hstate.append (unopened_other (by simp) _)
  | comment | fail => trivial

/-- **Induction over a scan.**  What holds of the state and the characters still to be scanned, and
is kept by all moves, leads to what holds of the scanned line. -/
theorem run_induction {motive : List Char → State → Prop} {goal : Scanned → Prop}
    {chars : List Char} {scanned : Scanned}
    (hrun : (run names line first state chars).outcome = .ok scanned)
    (hunopened : Unopened state.tokens) (hstart : motive chars state)
    (hnext : ∀ c rest before after, motive (c :: rest) before →
      Move line before c rest (.next after) → motive rest after)
    (hcompare : ∀ c rest before after, motive (c :: rest) before →
      Move line before c rest (.compare after) → motive rest (identify names after))
    (hdone : ∀ c rest before after declared, Unopened before.tokens → motive (c :: rest) before →
      Move line before c rest (.done after declared) →
      goal ⟨after.tokens, declared, after.blocks⟩)
    (hend : ∀ after, Unopened after.tokens → motive [] after →
      goal ⟨after.tokens, {}, after.blocks⟩) :
    goal scanned := by
  induction chars generalizing first state with
  | nil =>
      cases hrun
      exact hend state hunopened hstart
  | cons c rest ih =>
      have hmove : Move line state c rest (step line first state c rest) :=
        move_step hunopened c rest
      rw [run_cons] at hrun
      cases hresult : step line first state c rest with
      | next after =>
          rw [hresult] at hrun hmove
          exact ih hrun (hmove.unopened hunopened) (hnext c rest state after hstart hmove)
      | compare after =>
          rw [hresult] at hrun hmove
          refine ih hrun ?_ (hcompare c rest state after hstart hmove)
          exact Unopened.append (hmove.unopened hunopened) (unopened_nameTokens names after.word)
      | done after declared =>
          rw [hresult] at hrun hmove
          cases hrun
          exact hdone c rest state after declared hunopened hstart hmove
      | fail after fault =>
          rw [hresult] at hrun
          exact nomatch hrun

end LineCompiler.Scan
