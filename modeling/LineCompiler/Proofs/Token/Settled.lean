import LineCompiler.Proofs.Token.Agreement
import LineCompiler.Proofs.Token.Part

/-!
# Behind a semicolon

A semicolon joins the word that is being read, and nothing takes it out again.  So behind the first
semicolon of a line no keyword is found.  As long as no comment and no line feed comes into sight,
all that happens there is that braces become tokens and close blocks, and that words are compared
with the declared names (`scanPart_settled`).
-/

namespace LineCompiler

/-- Whether a block is open. -/
def Blocks.isOpen (blocks : Blocks) : Bool :=
  blocks.inIf || blocks.inElse

/-- The blocks after a character: a closing brace closes the block that is open. -/
def Blocks.closedAt (blocks : Blocks) (c : Char) : Blocks :=
  if c = Text.closeBrace && blocks.inIf then { blocks with inIf := false, lastWasIf := true }
  else if c = Text.closeBrace && blocks.inElse then { blocks with inElse := false }
  else blocks

theorem Blocks.closedAt_of_ne {c : Char} (hc : c ≠ Text.closeBrace) (blocks : Blocks) :
    blocks.closedAt c = blocks := by
  simp [closedAt, hc]

/-- The blocks after a part of a line behind a semicolon. -/
def Blocks.closedBy (blocks : Blocks) (part : List Char) : Blocks :=
  part.foldl Blocks.closedAt blocks

private theorem Blocks.isOpen_of_closedAt {blocks : Blocks} {c : Char}
    (hopen : (blocks.closedAt c).isOpen = true) :
    blocks.isOpen = true := by
  unfold closedAt at hopen
  split at hopen
  · rename_i hclose
    rw [Bool.and_eq_true] at hclose
    simp [isOpen, hclose.2]
  · split at hopen
    · rename_i hclose
      rw [Bool.and_eq_true] at hclose
      simp [isOpen, hclose.2]
    · exact hopen

private theorem Blocks.isOpen_of_closedBy {blocks : Blocks} {part : List Char}
    (hopen : (blocks.closedBy part).isOpen = true) :
    blocks.isOpen = true := by
  induction part generalizing blocks with
  | nil => exact hopen
  | cons c rest ih => exact isOpen_of_closedAt (ih hopen)

/-- Whether a token reads like the word `else` at the end of its line. -/
def Token.saysElse : Token → Bool
  | .blank => false
  | .of _ value => value = .text Keyword.alt.label

namespace Scan

variable {names : Names} {line : SourceLine} {first : Bool} {state : State} {c : Char}
  {rest : List Char}

/-- A text with another character than those of the label does not read like `else`. -/
theorem saysElse_of_mem {text : List Char} (hc : c ∈ text) (hlabel : c ∉ Keyword.alt.label.toList)
    (kind : TokenKind) :
    (Token.of kind (.ofChars text)).saysElse = false := by
  rw [Token.saysElse, decide_eq_false_iff_not]
  intro heq
  injection heq with heq
  rw [← heq, String.toList_ofList] at hlabel
  exact hlabel hc

theorem saysElse_nameTokens {word : List Char} (hc : c ∈ word)
    (hlabel : c ∉ Keyword.alt.label.toList) :
    ∀ token ∈ nameTokens names word, token.saysElse = false := by
  intro token htoken
  obtain ⟨kind, -, rfl⟩ := exists_of_mem_nameTokens htoken
  exact saysElse_of_mem hc hlabel kind

/-- Tokens that are found behind a semicolon, where the given blocks are open. -/
structure SettledTokens (blocks : Blocks) (tokens : List Token) : Prop where
  noElse : ∀ token ∈ tokens, token.saysElse = false
  closes : .symbol .closeBrace ∈ tokens → blocks.isOpen = true

theorem settledTokens_nil (blocks : Blocks) : SettledTokens blocks [] :=
  ⟨by simp, by simp⟩

theorem SettledTokens.append {blocks : Blocks} {tokens more : List Token}
    (htokens : SettledTokens blocks tokens) (hmore : SettledTokens blocks more) :
    SettledTokens blocks (tokens ++ more) where
  noElse := List.forall_mem_append.mpr ⟨htokens.noElse, hmore.noElse⟩
  closes hmem := (List.mem_append.mp hmem).elim htokens.closes hmore.closes

theorem SettledTokens.of_closedBy {blocks : Blocks} {part : List Char} {tokens : List Token}
    (htokens : SettledTokens (blocks.closedBy part) tokens) : SettledTokens blocks tokens where
  noElse := htokens.noElse
  closes hmem := Blocks.isOpen_of_closedBy (htokens.closes hmem)

theorem settledTokens_nameTokens {word : List Char} (hword : ';' ∈ word) (blocks : Blocks) :
    SettledTokens blocks (nameTokens names word) := by
  refine ⟨saysElse_nameTokens hword (by decide), fun hmem => ?_⟩
  obtain ⟨kind, hkind, heq⟩ := exists_of_mem_nameTokens hmem
  injection heq with hsymbol
  rw [← hsymbol] at hkind
  exact absurd hkind (by decide)

/-- The token of another mark than a closing brace. -/
theorem settledTokens_singleton {token : Token} (helse : token.saysElse = false)
    (hclose : token ≠ .symbol .closeBrace) (blocks : Blocks) : SettledTokens blocks [token] where
  noElse other hother := by rwa [List.mem_singleton.mp hother]
  closes hmem := absurd (List.mem_singleton.mp hmem).symm hclose

theorem settledTokens_closeBrace {blocks : Blocks} (hopen : blocks.isOpen = true) :
    SettledTokens blocks [.symbol .closeBrace] where
  noElse other hother := by
    rw [List.mem_singleton.mp hother]
    decide
  closes _ := hopen

/-- The tokens of a semicolon that ends its statement. -/
theorem settledTokens_ending (names : Names) (blocks : Blocks) :
    SettledTokens blocks ([.of .symbol (.text ";")] ++ nameTokens names [';']) :=
  (settledTokens_singleton (by decide) (by decide) blocks).append
    (settledTokens_nameTokens (List.mem_singleton_self _) blocks)

/-! ## Steps -/

/-- Keywords are made of letters and underscores. -/
theorem ofWord?_eq_none {word : List Char} (hc : c ∈ word)
    (hother : (c.isAlpha || c = '_') = false) :
    Keyword.ofWord? word = none := by
  rw [Option.eq_none_iff_forall_ne_some]
  intro keyword hkeyword
  have hletters : ∀ pair ∈ Keyword.words, pair.2.all (fun d => d.isAlpha || d = '_') = true :=
    List.all_eq_true.mp rfl
  have hword := List.all_eq_true.mp (hletters _ (Keyword.mem_words hkeyword)) c hc
  rw [hword] at hother
  exact absurd hother (by decide)

theorem onward_recognise (hword : ';' ∈ state.word) :
    (recognise line rest state).onward? names = some (identify names state) := by
  rw [recognise, ofWord?_eq_none hword rfl]
  rfl

/-- A semicolon that does not end its statement. -/
theorem onward_semicolon (hends : endsStatement rest = .ok false) :
    (step line first state ';' rest).onward? names =
      some (identify names { state with word := state.word ++ [';'] }) := by
  have hstep : step line first state ';' rest =
      recognise line rest { state with word := state.word ++ [';'] } := by
    simp [step, hends, scanMark, Text.openBrace, Text.closeBrace]
  rw [hstep, onward_recognise (by simp)]

/-- A semicolon that ends its statement. -/
theorem onward_ending (hends : endsStatement rest = .ok true) :
    (step line first state ';' rest).onward? names =
      some (identify names { state.endStatement with word := [';'] }) := by
  have hstep : step line first state ';' rest =
      recognise line rest { state.endStatement with word := [';'] } := by
    simp [step, hends, scanMark, Text.openBrace, Text.closeBrace, State.endStatement]
  rw [hstep, onward_recognise (by simp)]

theorem endsStatement_of_unended (hfeed : rest.head? ≠ some '\n')
    (hlast : rest.getLast? ≠ some '/') :
    endsStatement rest = .ok (Text.contains ['/', '/'] rest) := by
  rw [endsStatement, if_neg hfeed, if_neg hlast]

theorem endsStatement_append {back : List Char} (hne : back ≠ []) (hback : '\n' ∉ back)
    {ending : List Char} (hending : ending.getLast? = some '\n') :
    endsStatement (back ++ ending) = .ok (Text.contains ['/', '/'] (back ++ ending)) := by
  refine endsStatement_of_unended ?_ (by simp [List.getLast?_append, hending])
  obtain ⟨c, rest, rfl⟩ := List.exists_cons_of_ne_nil hne
  intro hhead
  exact hback (by simp [Option.some.inj hhead])

/-- A mark behind a semicolon. -/
theorem onward_scanMark (hword : ';' ∈ state.word) :
    ∃ next more, (scanMark line state c rest).onward? names = some next ∧ ';' ∈ next.word ∧
      next.blocks = state.blocks.closedAt c ∧ next.tokens = state.tokens ++ more ∧
      SettledTokens state.blocks more := by
  unfold scanMark
  split
  · rename_i hbrace
    have hblocks :=
      Blocks.closedAt_of_ne (show c ≠ Text.closeBrace by rw [hbrace]; decide) state.blocks
    exact ⟨_, _, rfl, hword, hblocks.symm, rfl, settledTokens_singleton (by decide) (by decide) _⟩
  · split
    · rename_i hclose
      have hblocks : state.blocks.closedAt c =
          { state.blocks with inIf := false, lastWasIf := true } := if_pos hclose
      rw [Bool.and_eq_true] at hclose
      exact ⟨_, _, rfl, hword, hblocks.symm, rfl,
        settledTokens_closeBrace (by simp [Blocks.isOpen, hclose.2])⟩
    · rename_i hfirst
      split
      · rename_i hclose
        have hblocks : state.blocks.closedAt c = { state.blocks with inElse := false } := by
          rw [Blocks.closedAt, if_neg hfirst, if_pos hclose]
        rw [Bool.and_eq_true] at hclose
        exact ⟨_, _, rfl, hword, hblocks.symm, rfl,
          settledTokens_closeBrace (by simp [Blocks.isOpen, hclose.2])⟩
      · rename_i hsecond
        have hblocks : state.blocks.closedAt c = state.blocks := by
          rw [Blocks.closedAt, if_neg hfirst, if_neg hsecond]
        have hjoined : ';' ∈ state.word ++ [c] := List.mem_append_left _ hword
        refine ⟨_, nameTokens names (state.word ++ [c]), onward_recognise ?_, ?_, hblocks.symm, rfl,
          settledTokens_nameTokens hjoined _⟩
        · exact hjoined
        · exact hjoined

/-- **A step behind a semicolon.** -/
theorem onward_settled (names : Names) (line : SourceLine) (first : Bool) (hword : ';' ∈ state.word)
    (hcomment : ¬ (c = '/' ∧ rest.head? = some '/')) (hfeed : rest.head? ≠ some '\n')
    (hlast : rest.getLast? ≠ some '/') :
    ∃ next more, (step line first state c rest).onward? names = some next ∧ ';' ∈ next.word ∧
      next.blocks = state.blocks.closedAt c ∧ next.tokens = state.tokens ++ more ∧
      SettledTokens state.blocks more := by
  by_cases hsemicolon : c = ';'
  · subst hsemicolon
    have hblocks := Blocks.closedAt_of_ne (show ';' ≠ Text.closeBrace by decide) state.blocks
    have hends := endsStatement_of_unended hfeed hlast
    cases hcontains : Text.contains ['/', '/'] rest with
    | false =>
        rw [hcontains] at hends
        have hjoined : ';' ∈ state.word ++ [';'] := by simp
        exact ⟨_, _, onward_semicolon hends, hjoined, hblocks.symm, rfl,
          settledTokens_nameTokens hjoined state.blocks⟩
    | true =>
        rw [hcontains] at hends
        exact ⟨_, _, onward_ending hends, List.mem_cons_self .., hblocks.symm, List.append_assoc ..,
          settledTokens_ending names state.blocks⟩
  · by_cases hspace : c = ' '
    · subst hspace
      exact ⟨state, [], rfl, hword, rfl, (List.append_nil _).symm, settledTokens_nil _⟩
    · have hstep : step line first state c rest = scanMark line state c rest := by
        have hslashes : (c = '/' && rest.head? = some '/') = false := by simpa using hcomment
        simp [step, hspace, hslashes, hfeed, hsemicolon]
      rw [hstep]
      exact onward_scanMark hword

/-! ## Parts -/

/-- **A part behind a semicolon** is scanned to its end, where no comment and no line feed is in
sight.  No keyword is found, and closing braces close the blocks that are open. -/
theorem scanPart_settled (names : Names) (line : SourceLine) (behind : List Char) (first : Bool)
    {part : List Char} (hword : ';' ∈ state.word)
    (hcomment : Text.contains ['/', '/'] (part ++ behind.take 1) = false) (hfeed : '\n' ∉ part)
    (hbehind : behind.head? ≠ some '\n') (hlast : behind.getLast? = some '\n') :
    ∃ after more, scanPart names line behind first state part = .ok after ∧ ';' ∈ after.word ∧
      after.blocks = state.blocks.closedBy part ∧ after.tokens = state.tokens ++ more ∧
      SettledTokens state.blocks more := by
  induction part generalizing first state with
  | nil => exact ⟨state, [], rfl, hword, rfl, (List.append_nil _).symm, settledTokens_nil _⟩
  | cons c rest ih =>
      rw [List.cons_append, Text.contains, Bool.or_eq_false_iff] at hcomment
      rw [List.mem_cons, not_or] at hfeed
      have hhead : (rest ++ behind).head? = (rest ++ behind.take 1).head? := by
        cases rest with
        | nil => simp [List.head?_take]
        | cons d rest => rfl
      have hpair : ¬ (c = '/' ∧ (rest ++ behind).head? = some '/') := by
        rintro ⟨rfl, hslash⟩
        rw [hhead] at hslash
        obtain ⟨others, hothers⟩ := List.head?_eq_some_iff.mp hslash
        rw [hothers] at hcomment
        exact absurd hcomment.1 (by simp)
      have hnext : (rest ++ behind).head? ≠ some '\n' := by
        cases rest with
        | nil => exact hbehind
        | cons d rest =>
            rw [List.mem_cons, not_or] at hfeed
            exact fun heq => hfeed.2.1 (Option.some.inj heq).symm
      have hend : (rest ++ behind).getLast? ≠ some '/' := by
        simp [List.getLast?_append, hlast]
      obtain ⟨next, found, hstep, hnextWord, hblocks, htokens, hfound⟩ :=
        onward_settled names line first hword hpair hnext hend
      obtain ⟨after, more, hpart, hafter, hclosed, hmore, hsettled⟩ :=
        ih false hnextWord hcomment.2 hfeed.2
      rw [hblocks] at hclosed hsettled
      have hrest : SettledTokens (state.blocks.closedBy [c]) more := hsettled
      refine ⟨after, found ++ more, ?_, hafter, hclosed, ?_, hfound.append hrest.of_closedBy⟩
      · rw [scanPart_of_onward hstep, hpart]
      · rw [hmore, htokens, List.append_assoc]

end Scan

end LineCompiler
