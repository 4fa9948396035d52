import LineCompiler.Proofs.Token.Settled

/-!
# The first and the last token of a line

A line closes a block if its first token is that of a closing brace, and opens the second block of a
conditional if its first token is that of a symbol and its last one reads like the word `else`
(`OpensSecond`).  A line that ends with a line feed and whose scan ends before it opens no second
block (`not_opensSecond_of_scanPart`).  A first token of a closing brace comes from a closing brace
in the text (`closeBrace_mem_of_ok`, `closeBrace_mem_of_error`), and as long as a block is open, no
closing brace is passed over (`closeBrace_not_mem_of_nil`).
-/

namespace LineCompiler.Scan

variable {names : Names} {line : SourceLine} {first : Bool} {state after : State} {c : Char}
  {rest : List Char} {declared : Names} {tokens more : List Token}

/-- Tokens of a line that opens the second block of a conditional. -/
def OpensSecond (tokens : List Token) : Prop :=
  (∃ value, tokens.head? = some (.of .symbol value)) ∧ tokens.getLast?.any Token.saysElse = true

/-- Tokens of a line that closes a block. -/
def ClosesBlock (tokens : List Token) : Prop :=
  tokens.head? = some (.symbol .closeBrace)

instance (tokens : List Token) : Decidable (ClosesBlock tokens) :=
  inferInstanceAs (Decidable (_ = _))

/-- Whether the first token is that of a symbol. -/
def startsWithSymbol (tokens : List Token) : Bool :=
  match tokens.head? with
  | some (.of kind _) => kind = .symbol
  | _ => false

private theorem startsWithSymbol_iff (tokens : List Token) :
    startsWithSymbol tokens = true ↔ ∃ value, tokens.head? = some (.of .symbol value) := by
  unfold startsWithSymbol
  split
  · rename_i kind value hhead
    simp [hhead]
  · rename_i hother
    refine ⟨fun hfalse => absurd hfalse (by decide), ?_⟩
    rintro ⟨value, hhead⟩
    exact absurd hhead (hother _ _)

instance (tokens : List Token) : Decidable (OpensSecond tokens) :=
  decidable_of_iff (startsWithSymbol tokens = true ∧ tokens.getLast?.any Token.saysElse = true)
    (and_congr_left' (startsWithSymbol_iff tokens))

theorem not_opensSecond_append (hne : more ≠ []) (hmore : ∀ token ∈ more, token.saysElse = false) :
    ¬ OpensSecond (tokens ++ more) := by
  rintro ⟨-, helse⟩
  obtain ⟨last, hlast⟩ := List.getLast?_isSome.mpr hne |> Option.isSome_iff_exists.mp
  rw [List.getLast?_append, hlast, Option.some_or, Option.any_some,
    hmore last (List.mem_of_getLast? hlast)] at helse
  exact absurd helse (by decide)

theorem closesBlock_append (hmore : ¬ ClosesBlock more) :
    ClosesBlock (tokens ++ more) ↔ ClosesBlock tokens := by
  cases tokens with
  | nil => exact ⟨fun hcloses => absurd hcloses hmore, fun hcloses => nomatch hcloses⟩
  | cons token tokens => exact Iff.rfl

theorem not_closesBlock_nameTokens (names : Names) (word : List Char) :
    ¬ ClosesBlock (nameTokens names word) := by
  intro hcloses
  obtain ⟨kind, hkind, heq⟩ := exists_of_mem_nameTokens (List.mem_of_head? hcloses)
  injection heq with hsymbol
  rw [← hsymbol] at hkind
  exact absurd hkind (by decide)

/-! ## Symbols in front -/

/-- The first token, if it is that of a symbol, is a brace or the semicolon of a statement. -/
def Marked (tokens : List Token) : Prop :=
  ∀ value, tokens.head? = some (.of .symbol value) →
    value = .text ";" ∨ ∃ symbol : Symbol, value = .text symbol.label

theorem marked_nil : Marked [] := by
  intro value hhead
  cases hhead

theorem marked_symbol (symbol : Symbol) : Marked [.symbol symbol] := by
  rintro value ⟨⟩
  exact Or.inr ⟨symbol, rfl⟩

theorem marked_semicolon : Marked [.of .symbol (.text ";")] := by
  rintro value ⟨⟩
  exact Or.inl rfl

theorem marked_keyword (keyword : Keyword) : Marked [.keyword keyword] := by
  rintro value ⟨⟩

private theorem marked_nameTokens (names : Names) (word : List Char) :
    Marked (nameTokens names word) := by
  intro value hhead
  obtain ⟨kind, hkind, heq⟩ := exists_of_mem_nameTokens (List.mem_of_head? hhead)
  injection heq with hsymbol
  rw [← hsymbol] at hkind
  exact absurd hkind (by decide)

theorem Marked.append (htokens : Marked tokens) (hmore : Marked more) :
    Marked (tokens ++ more) := by
  cases tokens with
  | nil => exact hmore
  | cons token tokens => exact htokens

/-- The first token stays marked until the scan is done. -/
def Step.Marked : Step → Prop
  | .next state | .compare state => Scan.Marked state.tokens
  | .done _ _ | .fail _ _ => True

theorem Recognised.marked {step : Step} (hstate : Marked state.tokens)
    (hstep : Recognised line rest state step) :
    step.Marked := by
  cases hstep with
  | word => exact hstate
  | keyword keyword => exact hstate.append (marked_keyword keyword)
  | second => exact hstate.append (marked_keyword .alt)
  | lateConditional => exact hstate.append (marked_keyword .cond)
  | statement | late | operation | fail => trivial

theorem Move.marked {step : Step} (hstate : Marked state.tokens)
    (hmove : Move line state c rest step) :
    step.Marked := by
  cases hmove with
  | pass => exact hstate
  | openBrace => exact hstate.append (marked_symbol .openBrace)
  | closeFirst => exact hstate.append (marked_symbol .closeBrace)
  | closeSecond => exact hstate.append (marked_symbol .closeBrace)
  | word hspace hbrace hstep =>
      refine hstep.marked ?_
      exact hstate
  | ending hstep =>
      refine hstep.marked ?_
      exact hstate.append marked_semicolon
  | comment | fail => trivial

private theorem marked_onward {next : State} (hunopened : Unopened state.tokens)
    (hstate : Marked state.tokens)
    (hstep : (step line first state c rest).onward? names = some next) : Marked next.tokens := by
  obtain hmove | ⟨after, hmove, rfl⟩ := move_of_onward hunopened hstep
  · exact hmove.marked hstate
  · exact Marked.append (hmove.marked hstate) (marked_nameTokens names after.word)

/-- A line that opens with a symbol opens with no operation. -/
theorem opens_isOperation {value : Atom} (htokens : Marked tokens)
    (hhead : tokens.head? = some (.of .symbol value)) :
    Token.opens Token.isOperation tokens = .ok false := by
  obtain ⟨rest, rfl⟩ := List.head?_eq_some_iff.mp hhead
  obtain rfl | ⟨symbol, rfl⟩ := htokens value rfl
  · rfl
  · cases symbol <;> rfl

/-! ## Scans that end early -/

theorem Recognised.not_opensSecond (hstate : Marked state.tokens)
    (hstep : Recognised line rest state (.done after declared)) : ¬ OpensSecond after.tokens := by
  cases hstep with
  | statement opener elements hword htokens helements =>
      rintro ⟨⟨value, hhead⟩, -⟩
      cases hhead
  | late opener hopener htokens =>
      refine not_opensSecond_append (by simp) ?_
      cases opener <;> decide
  | operation elements helements hread =>
      rintro hopens
      obtain ⟨value, hhead⟩ := hopens.1
      have hmarked : Marked (state.push [.keyword .mul]).tokens :=
        hstate.append (marked_keyword .mul)
      have hfirst : (state.push [.keyword .mul]).tokens.head? = some (.of .symbol value) := by
        rw [← hhead]
        cases htokens : state.tokens <;> simp [State.push, htokens]
      -- No elements are read behind a symbol, so that the keyword is the last token.
      rw [Operation.read, opens_isOperation hmarked hfirst] at hread
      cases hread
      have hkeyword : ¬ OpensSecond (state.tokens ++ [.keyword .mul]) :=
        not_opensSecond_append (by simp) (by decide)
      simp only [State.push, Bool.false_eq_true, if_false, List.append_nil] at hopens
      exact hkeyword hopens

theorem Move.not_opensSecond (hstate : Marked state.tokens) (hlast : rest.getLast? = some '\n')
    (hmove : Move line state c rest (.done after declared)) : ¬ OpensSecond after.tokens := by
  cases hmove with
  | comment text hc htext =>
      refine not_opensSecond_append (by simp) ?_
      -- The text of the comment has the line feed.
      obtain ⟨others, rfl⟩ := List.head?_eq_some_iff.mp hc.2
      have hfeed : '\n' ∈ others := by
        have hmem := List.mem_of_getLast? hlast
        simpa using hmem
      rw [htext]
      simp only [List.mem_cons, List.not_mem_nil, or_false, forall_eq_or_imp, forall_eq]
      exact ⟨rfl, saysElse_of_mem hfeed (by decide) _⟩
  | word hspace hbrace hstep =>
      refine hstep.not_opensSecond ?_
      exact hstate
  | ending hstep =>
      refine hstep.not_opensSecond ?_
      exact hstate.append marked_semicolon

/-- **A line that ends with a line feed and is not scanned to its end opens no second block.** -/
theorem not_opensSecond_of_scanPart {part behind : List Char} {result : Result} {scanned : Scanned}
    (hunopened : Unopened state.tokens) (hstate : Marked state.tokens)
    (hpart : scanPart names line behind first state part = .error result)
    (hresult : result.outcome = .ok scanned) (hlast : behind.getLast? = some '\n') :
    ¬ OpensSecond scanned.tokens := by
  obtain ⟨first', c, rest, before, hbefore, hmarked, hstep⟩ :=
    scanPart_error (motive := fun _ state => Marked state.tokens) hpart hunopened hstate
      fun _ _ _ _ _ => marked_onward
  obtain ⟨after, declared, hmove, rfl⟩ := move_of_result hbefore hstep hresult
  exact hmove.not_opensSecond hmarked (by simp [List.getLast?_append, hlast])

/-! ## Closing braces -/

/-- Whether a step leaves a closing brace in front. -/
def Step.Closes : Step → Prop
  | .next after | .compare after | .done after _ => ClosesBlock after.tokens
  | .fail _ _ => False

theorem closesBlock_append_cons {token : Token} (htoken : token ≠ .symbol .closeBrace) :
    ClosesBlock (tokens ++ token :: more) ↔ ClosesBlock tokens :=
  closesBlock_append fun hcloses => htoken (Option.some.inj hcloses)

theorem keyword_ne_closeBrace (keyword : Keyword) :
    Token.keyword keyword ≠ .symbol .closeBrace := by
  intro heq
  injection heq with hkind
  cases hkind

theorem Recognised.closesBlock {step : Step} (hstep : Recognised line rest state step)
    (hcloses : step.Closes) :
    ClosesBlock state.tokens := by
  cases hstep with
  | word => exact hcloses
  | keyword keyword => exact (closesBlock_append_cons (keyword_ne_closeBrace keyword)).mp hcloses
  | second => exact (closesBlock_append_cons (keyword_ne_closeBrace .alt)).mp hcloses
  | lateConditional => exact (closesBlock_append_cons (keyword_ne_closeBrace .cond)).mp hcloses
  | late opener => exact (closesBlock_append_cons (keyword_ne_closeBrace opener.keyword)).mp hcloses
  | statement opener =>
      exact absurd (Option.some.inj hcloses) (keyword_ne_closeBrace opener.keyword)
  | operation elements =>
      have htokens : ClosesBlock (state.tokens ++ [.keyword .mul] ++ elements) := hcloses
      rw [List.append_assoc] at htokens
      exact (closesBlock_append_cons (keyword_ne_closeBrace .mul)).mp htokens
  | fail => exact hcloses.elim

/-- A closing brace comes in front only where one is met. -/
theorem Move.closesBlock {step : Step} (hmove : Move line state c rest step)
    (hcloses : step.Closes) :
    ClosesBlock state.tokens ∨ c = Text.closeBrace := by
  cases hmove with
  | pass => exact Or.inl hcloses
  | openBrace => exact Or.inl ((closesBlock_append_cons (by decide)).mp hcloses)
  | closeFirst hfirst hc => exact Or.inr hc
  | closeSecond hfirst hsecond hc => exact Or.inr hc
  | comment => exact Or.inl ((closesBlock_append_cons (by decide)).mp hcloses)
  | word hspace hbrace hstep =>
      refine Or.inl ?_
      exact hstep.closesBlock hcloses
  | ending hstep =>
      refine Or.inl ?_
      have hended : ClosesBlock (state.tokens ++ [.of .symbol (.text ";")]) :=
        hstep.closesBlock hcloses
      exact (closesBlock_append_cons (by decide)).mp hended
  | fail => exact hcloses.elim

/-- What is kept along a part in which a first token of a closing brace has been met as a
character. -/
def ClosesWithin (part : List Char) (chars : List Char) (state : State) : Prop :=
  ∃ front, part = front ++ chars ∧ (ClosesBlock state.tokens → Text.closeBrace ∈ front)

theorem closesWithin_onward {part behind : List Char} {next : State}
    (hunopened : Unopened state.tokens) (hstate : ClosesWithin part (c :: rest) state)
    (hstep : (step line first state c (rest ++ behind)).onward? names = some next) :
    ClosesWithin part rest next := by
  obtain ⟨front, rfl, hfront⟩ := hstate
  refine ⟨front ++ [c], by simp, fun hcloses => ?_⟩
  have hbefore : ClosesBlock state.tokens ∨ c = Text.closeBrace := by
    obtain hmove | ⟨after, hmove, rfl⟩ := move_of_onward hunopened hstep
    · exact hmove.closesBlock hcloses
    · exact hmove.closesBlock ((closesBlock_append (not_closesBlock_nameTokens _ _)).mp hcloses)
  rcases hbefore with hbefore | rfl
  · exact List.mem_append_left _ (hfront hbefore)
  · exact List.mem_append_right _ (List.mem_singleton_self _)

section Parts

variable {part behind : List Char}

/-- **A closing brace in front of the tokens is in the text.** -/
theorem closeBrace_mem_of_ok (hpart : scanPart names line behind first state part = .ok after)
    (hstate : state.tokens = []) (hcloses : ClosesBlock after.tokens) : Text.closeBrace ∈ part := by
  have hnone : ¬ ClosesBlock state.tokens := by simp [hstate, ClosesBlock]
  have hunopened : Unopened state.tokens := hstate ▸ unopened_nil
  obtain ⟨-, front, hfront, hmem⟩ := scanPart_ok (motive := ClosesWithin part) hpart hunopened
    ⟨[], rfl, fun hcloses => absurd hcloses hnone⟩ fun _ _ _ _ _ => closesWithin_onward
  rw [hfront, List.append_nil]
  exact hmem hcloses

theorem closeBrace_mem_of_error {result : Result} {scanned : Scanned}
    (hpart : scanPart names line behind first state part = .error result)
    (hresult : result.outcome = .ok scanned) (hstate : state.tokens = [])
    (hcloses : ClosesBlock scanned.tokens) : Text.closeBrace ∈ part := by
  have hnone : ¬ ClosesBlock state.tokens := by simp [hstate, ClosesBlock]
  have hunopened : Unopened state.tokens := hstate ▸ unopened_nil
  obtain ⟨first', c, rest, before, hbefore, ⟨front, rfl, hfront⟩, hstep⟩ :=
    scanPart_error (motive := ClosesWithin part) hpart hunopened
      ⟨[], rfl, fun hcloses => absurd hcloses hnone⟩ fun _ _ _ _ _ => closesWithin_onward
  obtain ⟨after, declared, hmove, rfl⟩ := move_of_result hbefore hstep hresult
  rcases hmove.closesBlock hcloses with hcloses | rfl
  · exact List.mem_append_left _ (hfront hcloses)
  · exact List.mem_append_right _ (List.mem_cons_self ..)

/-- What is kept along a part as long as there are no tokens: the blocks, and that no closing brace
has been met if one of them is open. -/
def OpenWithin (part : List Char) (blocks : Blocks) (chars : List Char) (state : State) : Prop :=
  ∃ front, part = front ++ chars ∧ (state.tokens = [] →
    state.blocks = blocks ∧ (blocks.isOpen = true → Text.closeBrace ∉ front))

private theorem openWithin_onward {blocks : Blocks} {next : State}
    (hunopened : Unopened state.tokens) (hstate : OpenWithin part blocks (c :: rest) state)
    (hstep : (step line first state c (rest ++ behind)).onward? names = some next) :
    OpenWithin part blocks rest next := by
  obtain ⟨front, rfl, hfront⟩ := hstate
  refine ⟨front ++ [c], by simp, fun htokens => ?_⟩
  have hother : state.tokens = [] → (state.blocks.isOpen = true → c ≠ Text.closeBrace) →
      state.blocks = blocks ∧ (blocks.isOpen = true → Text.closeBrace ∉ front ++ [c]) := by
    intro hnil hc
    obtain ⟨rfl, hmem⟩ := hfront hnil
    refine ⟨rfl, fun hopen => ?_⟩
    rw [List.mem_append, List.mem_singleton, not_or]
    exact ⟨hmem hopen, fun heq => hc hopen heq.symm⟩
  obtain hmove | ⟨after, hmove, rfl⟩ := move_of_onward hunopened hstep
  · cases hmove with
    | pass hc =>
        refine hother htokens fun _ => ?_
        rcases hc with rfl | rfl <;> decide
    | openBrace | closeFirst | closeSecond => exact absurd htokens (by simp [State.push])
    | word hspace hbrace hstep => cases hstep
    | ending hstep => cases hstep
  · have hafter : after.tokens = [] := (List.append_eq_nil_iff.mp htokens).1
    cases hmove with
    | word hspace hbrace hstep hclose =>
        cases hstep with
        | word =>
            refine hother hafter fun hopen hc => ?_
            simp [Blocks.isOpen, hclose hc] at hopen
        | keyword | second | lateConditional => exact absurd hafter (by simp [State.push])
    | ending hstep =>
        cases hstep <;> exact absurd hafter (by simp [State.push, State.endStatement])

/-- **No closing brace is passed over while a block is open**, as long as there are no tokens. -/
theorem closeBrace_not_mem_of_nil (hpart : scanPart names line behind first state part = .ok after)
    (hunopened : Unopened state.tokens) (hafter : after.tokens = []) :
    after.blocks = state.blocks ∧ (state.blocks.isOpen = true → Text.closeBrace ∉ part) := by
  obtain ⟨-, front, hfront, hnil⟩ :=
    scanPart_ok (motive := OpenWithin part state.blocks) hpart hunopened
    ⟨[], rfl, fun _ => ⟨rfl, fun _ => by simp⟩⟩ fun _ _ _ _ _ => openWithin_onward
  rw [hfront, List.append_nil]
  exact hnil hafter

end Parts

end LineCompiler.Scan
