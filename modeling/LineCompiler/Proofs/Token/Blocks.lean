import LineCompiler.Proofs.Token.Agreement
import LineCompiler.Proofs.Token.Renumber
import LineCompiler.Proofs.Token.Step

/-!
# Blocks along the tokens of a source

The scan keeps three flags about blocks, and it sets and clears them at characters anywhere on a
line.  But they say no more than the tokens do: going through the tokens of a source from the left,
each token leads from the flags before it to the flags after it (`Blocks.Passes`), and this holds of
whole lines and of whole sources (`along_scan`).

So the order of the tokens can be told without the scan.  An `else` comes after an `if` and a
closing brace with no other `else` in between, and there are never more closing braces than there
are words that open a block (`blocks_lex`).
-/

namespace LineCompiler

namespace Blocks

/-! ## Blocks along tokens -/

/-- How a token changes the blocks. -/
inductive Passes : Blocks → Token → Blocks → Prop
  | cond (blocks : Blocks) : Passes blocks (.keyword .cond) { blocks with inIf := true }
  | alt {blocks : Blocks} (hlast : blocks.lastWasIf = true) :
      Passes blocks (.keyword .alt) ⟨false, true, false⟩
  | closeFirst {blocks : Blocks} (hfirst : blocks.inIf = true) :
      Passes blocks (.symbol .closeBrace) { blocks with inIf := false, lastWasIf := true }
  | closeSecond {blocks : Blocks} (hsecond : blocks.inElse = true) :
      Passes blocks (.symbol .closeBrace) { blocks with inElse := false }
  | other (blocks : Blocks) {token : Token} (hcond : token ≠ .keyword .cond)
      (halt : token ≠ .keyword .alt) (hclose : token ≠ .symbol .closeBrace) :
      Passes blocks token blocks

/-- How tokens, one after another, change the blocks. -/
inductive Along : Blocks → List Token → Blocks → Prop
  | nil (blocks : Blocks) : Along blocks [] blocks
  | cons {start middle finish : Blocks} {token : Token} {tokens : List Token}
      (htoken : Passes start token middle) (htokens : Along middle tokens finish) :
      Along start (token :: tokens) finish

variable {blocks start middle finish : Blocks} {token : Token} {tokens more : List Token}

theorem Passes.along (htoken : Passes start token finish) : Along start [token] finish :=
  .cons htoken (.nil finish)

theorem Along.append (htokens : Along start tokens middle) (hmore : Along middle more finish) :
    Along start (tokens ++ more) finish := by
  induction htokens with
  | nil blocks => exact hmore
  | cons htoken _ ih => exact .cons htoken (ih hmore)

theorem Along.split (hboth : Along start (tokens ++ more) finish) :
    ∃ middle, Along start tokens middle ∧ Along middle more finish := by
  induction tokens generalizing start with
  | nil => exact ⟨start, .nil start, hboth⟩
  | cons token tokens ih =>
      cases hboth with
      | cons htoken hrest =>
          obtain ⟨middle, htokens, hmore⟩ := ih hrest
          exact ⟨middle, .cons htoken htokens, hmore⟩

/-! ## Tokens without a part in blocks -/

theorem passes_of_isElement (blocks : Blocks) (htoken : token.isElement) :
    Passes blocks token blocks := by
  refine .other blocks ?_ ?_ ?_
  all_goals
    rintro rfl
    exact absurd htoken (by decide)

theorem passes_other (blocks : Blocks) {kind : TokenKind} (hkeyword : kind ≠ .keyword)
    (hsymbol : kind ≠ .symbol) (value : Atom) : Passes blocks (.of kind value) blocks := by
  refine .other blocks ?_ ?_ ?_
  · exact fun hsame => hkeyword (Token.of.inj hsame).1
  · exact fun hsame => hkeyword (Token.of.inj hsame).1
  · exact fun hsame => hsymbol (Token.of.inj hsame).1

theorem passes_keyword (blocks : Blocks) {keyword : Keyword} (hcond : keyword ≠ .cond)
    (halt : keyword ≠ .alt) : Passes blocks (.keyword keyword) blocks := by
  cases keyword with
  | cond => exact absurd rfl hcond
  | alt => exact absurd rfl halt
  | _ => exact .other blocks (by decide) (by decide) (by decide)

theorem along_of_forall (htokens : ∀ token ∈ tokens, Passes blocks token blocks) :
    Along blocks tokens blocks := by
  induction tokens with
  | nil => exact .nil blocks
  | cons token tokens ih =>
      refine .cons (htokens token (List.mem_cons_self ..)) ?_
      exact ih fun other hother => htokens other (List.mem_cons_of_mem _ hother)

theorem along_of_all_isElement (blocks : Blocks) (htokens : tokens.all Token.isElement) :
    Along blocks tokens blocks :=
  along_of_forall fun token htoken =>
    passes_of_isElement blocks (List.all_eq_true.mp htokens token htoken)

private theorem along_nameTokens (blocks : Blocks) (names : Names) (word : List Char) :
    Along blocks (Scan.nameTokens names word) blocks := by
  apply along_of_forall
  intro token htoken
  obtain ⟨kind, hkind, rfl⟩ := Scan.exists_of_mem_nameTokens htoken
  apply passes_other
  · rintro rfl
    exact absurd hkind (by decide)
  · rintro rfl
    exact absurd hkind (by decide)

/-! ## Closing braces are counted -/

/-- How many of the blocks are open. -/
def openCount (blocks : Blocks) : Nat :=
  blocks.inIf.toNat + blocks.inElse.toNat

theorem Passes.count_le (htoken : Passes start token finish) :
    [token].count (.symbol .closeBrace) + finish.openCount ≤
      [token].count (.keyword .cond) + [token].count (.keyword .alt) + start.openCount := by
  cases htoken with
  | cond =>
      have hclose : List.count (.symbol .closeBrace) [Token.keyword .cond] = 0 := by decide
      have hcond : List.count (.keyword .cond) [Token.keyword .cond] = 1 := by decide
      simp only [openCount, Bool.toNat_true]
      omega
  | alt hlast =>
      have hclose : List.count (.symbol .closeBrace) [Token.keyword .alt] = 0 := by decide
      have halt : List.count (.keyword .alt) [Token.keyword .alt] = 1 := by decide
      have hopen : openCount ⟨false, true, false⟩ = 1 := rfl
      omega
  | closeFirst hfirst =>
      have hclose : List.count (.symbol .closeBrace) [Token.symbol .closeBrace] = 1 := by decide
      simp only [openCount, hfirst, Bool.toNat_true, Bool.toNat_false]
      omega
  | closeSecond hsecond =>
      have hclose : List.count (.symbol .closeBrace) [Token.symbol .closeBrace] = 1 := by decide
      simp only [openCount, hsecond, Bool.toNat_true, Bool.toNat_false]
      omega
  | other _ _ hclose =>
      rw [List.count_eq_zero_of_not_mem (by simpa using hclose.symm)]
      omega

/-- A block is closed only if a word has opened it. -/
theorem Along.count_le (htokens : Along start tokens finish) :
    tokens.count (.symbol .closeBrace) + finish.openCount ≤
      tokens.count (.keyword .cond) + tokens.count (.keyword .alt) + start.openCount := by
  induction htokens with
  | nil blocks => simp
  | cons htoken _ ih =>
      have hfirst := htoken.count_le
      simp only [List.count_cons, List.count_nil] at hfirst ⊢
      omega

/-! ## What stands before the second block of a conditional -/

/-- Tokens with an `if` behind which there is no `else`. -/
def OpensFirst (tokens : List Token) : Prop :=
  ∃ before between, tokens = before ++ .keyword .cond :: between ∧ .keyword .alt ∉ between

/-- Tokens with an `if` and then a closing brace, behind which there is no `else`. -/
def ClosesFirst (tokens : List Token) : Prop :=
  ∃ before between behind,
    tokens = before ++ .keyword .cond :: (between ++ .symbol .closeBrace :: behind) ∧
      .keyword .alt ∉ between ∧ .keyword .alt ∉ behind

theorem OpensFirst.snoc (htokens : OpensFirst tokens) (htoken : token ≠ .keyword .alt) :
    OpensFirst (tokens ++ [token]) := by
  obtain ⟨before, between, rfl, hbetween⟩ := htokens
  refine ⟨before, between ++ [token], by simp, ?_⟩
  simpa using ⟨hbetween, htoken.symm⟩

theorem ClosesFirst.snoc (htokens : ClosesFirst tokens) (htoken : token ≠ .keyword .alt) :
    ClosesFirst (tokens ++ [token]) := by
  obtain ⟨before, between, behind, rfl, hbetween, hbehind⟩ := htokens
  refine ⟨before, between, behind ++ [token], by simp, hbetween, ?_⟩
  simpa using ⟨hbehind, htoken.symm⟩

theorem OpensFirst.close (htokens : OpensFirst tokens) :
    ClosesFirst (tokens ++ [.symbol .closeBrace]) := by
  obtain ⟨before, between, rfl, hbetween⟩ := htokens
  exact ⟨before, between, [], by simp, hbetween, by simp⟩

/-- What the blocks say about the tokens before them. -/
structure Recorded (tokens : List Token) (blocks : Blocks) : Prop where
  opened : blocks.inIf = true → OpensFirst tokens
  closed : blocks.lastWasIf = true → ClosesFirst tokens

/-- An `else` fits only where a first block was closed last. -/
theorem Passes.lastWasIf (htoken : Passes start token finish) (halt : token = .keyword .alt) :
    start.lastWasIf = true := by
  cases htoken with
  | alt hlast => exact hlast
  | other _ hother _ => exact absurd halt hother
  | cond => exact absurd halt (by decide)
  | closeFirst hfirst => exact absurd halt (by decide)
  | closeSecond hsecond => exact absurd halt (by decide)

theorem recorded_nil : Recorded [] {} :=
  ⟨nofun, nofun⟩

theorem Recorded.pass (htokens : Recorded tokens start) (htoken : Passes start token finish) :
    Recorded (tokens ++ [token]) finish := by
  cases htoken with
  | cond =>
      refine ⟨fun _ => ⟨tokens, [], rfl, by simp⟩, fun hlast => ?_⟩
      exact (htokens.closed hlast).snoc (by decide)
  | alt hlast => exact ⟨nofun, nofun⟩
  | closeFirst hfirst => exact ⟨nofun, fun _ => (htokens.opened hfirst).close⟩
  | closeSecond hsecond =>
      exact ⟨fun hfirst => (htokens.opened hfirst).snoc (by decide),
        fun hlast => (htokens.closed hlast).snoc (by decide)⟩
  | other _ halt _ =>
      exact ⟨fun hfirst => (htokens.opened hfirst).snoc halt,
        fun hlast => (htokens.closed hlast).snoc halt⟩

theorem Recorded.along (htokens : Recorded tokens start) (hmore : Along start more finish) :
    Recorded (tokens ++ more) finish := by
  induction hmore generalizing tokens with
  | nil blocks => simpa using htokens
  | cons htoken _ ih =>
      have hrest := ih (htokens.pass htoken)
      rwa [List.append_assoc] at hrest

end Blocks

/-! ## Blocks along a scan -/

namespace Scan

open Blocks

variable {names : Names} {line : SourceLine} {rest : List Char} {state : State} {start : Blocks}

/-- The state that a step leaves has the blocks to which its tokens lead from the start of the
line. -/
def Step.Follows (start : Blocks) : Step → Prop
  | .next state | .compare state | .done state _ => Along start state.tokens state.blocks
  | .fail _ _ => True

private theorem along_opener (opener : Opener) (blocks : Blocks) {elements : List Token}
    (helements : opener.elements line rest = .ok elements) :
    Along blocks (.keyword opener.keyword :: elements) (opener.blocksAfter blocks) := by
  refine .cons ?_ (along_of_all_isElement _ (Opener.all_isElement_elements helements))
  cases opener with
  | cond => exact .cond blocks
  | _ => exact passes_keyword blocks (by decide) (by decide)

theorem Recognised.follows {step : Step} (hstate : Along start state.tokens state.blocks)
    (hstep : Recognised line rest state step) : step.Follows start := by
  cases hstep with
  | word => exact hstate
  | keyword keyword hkeyword halt =>
      refine hstate.append (passes_keyword _ ?_ halt).along
      rintro rfl
      exact absurd hkeyword (by decide)
  | second hlast => exact hstate.append (Passes.alt hlast).along
  | statement opener elements hword htokens helements =>
      -- No token stands before the statement, so the blocks are those at the start of the line.
      rw [htokens] at hstate
      cases hstate
      exact along_opener opener _ helements
  | lateConditional htokens => exact hstate.append (Passes.cond _).along
  | late opener hopener htokens =>
      refine hstate.append (passes_keyword _ ?_ ?_).along
      all_goals cases opener <;> simp_all [Opener.keyword]
  | operation elements helements =>
      have hmul : Passes state.blocks (.keyword .mul) state.blocks :=
        passes_keyword _ (by decide) (by decide)
      exact (hstate.append hmul.along).append (along_of_all_isElement _ helements)
  | fail after fault => trivial

theorem Move.follows {c : Char} {step : Step} (hstate : Along start state.tokens state.blocks)
    (hmove : Move line state c rest step) : step.Follows start := by
  cases hmove with
  | pass hc => exact hstate
  | openBrace => exact hstate.append (passes_of_isElement _ (by decide)).along
  | closeFirst hfirst => exact hstate.append (Passes.closeFirst hfirst).along
  | closeSecond hfirst hsecond => exact hstate.append (Passes.closeSecond hsecond).along
  | comment text =>
      exact hstate.append (.cons (passes_other _ (by decide) (by decide) _)
        (passes_other _ (by decide) (by decide) _).along)
  | word hspace hbrace hstep =>
      refine hstep.follows ?_
      exact hstate
  | ending hstep =>
      refine hstep.follows ?_
      exact hstate.append (passes_of_isElement _ (by decide)).along
  | fail after fault => trivial

/-- The tokens of a line lead from the blocks before it to those after it. -/
theorem along_scanLine {blocks : Blocks} {scanned : Scanned}
    (hline : (scanLine names blocks line).outcome = .ok scanned) :
    Along blocks scanned.tokens scanned.blocks := by
  apply run_induction (motive := fun _ state => Along blocks state.tokens state.blocks) hline
    unopened_nil (.nil blocks)
  · exact fun c rest before after hbefore hmove => hmove.follows hbefore
  · intro c rest before after hbefore hmove
    have hafter : Along blocks after.tokens after.blocks := hmove.follows hbefore
    exact hafter.append (along_nameTokens _ names after.word)
  · exact fun c rest before after declared _ hbefore hmove => hmove.follows hbefore
  · exact fun after _ hafter => hafter

end Scan

/-- The tokens of a scan, line by line. -/
def Lexed.tokens (lexed : Lexed) : List Token :=
  lexed.lines.flatMap TokenLine.tokens

/-- The tokens of a source, up to the line that fails if there is one, lead from blocks to
blocks. -/
theorem Lexed.along_scan (names : Names) (blocks : Blocks) (lines : List SourceLine) :
    ∃ after, Blocks.Along blocks (scan names blocks lines).tokens after := by
  induction lines generalizing names blocks with
  | nil => exact ⟨blocks, .nil blocks⟩
  | cons line rest ih =>
      cases hline : (Scan.scanLine names blocks line).outcome with
      | error fault =>
          rw [scan_cons_error hline]
          exact ⟨blocks, .nil blocks⟩
      | ok scanned =>
          obtain ⟨after, hafter⟩ := ih (names.append scanned.declared) scanned.blocks
          rw [scan_cons_ok hline]
          exact ⟨after, (Scan.along_scanLine hline).append hafter⟩

/-- **Blocks are opened before they are closed.**  In the tokens that a scan gives, whatever the
source and the names declared before it, every `else` comes behind an `if` and a closing brace after
that `if`, and between these and the `else` there is no other `else`.  And up to any point there are
at most as many closing braces as there are `if` and `else`. -/
theorem blocks_lex (names : Names) (source : List String) :
    (∀ front back, (lex names source).tokens = front ++ .keyword .alt :: back →
      ∃ before between behind,
        front = before ++ .keyword .cond :: (between ++ .symbol .closeBrace :: behind) ∧
          .keyword .alt ∉ between ∧ .keyword .alt ∉ behind) ∧
      ∀ front, front <+: (lex names source).tokens →
        front.count (.symbol .closeBrace) ≤
          front.count (.keyword .cond) + front.count (.keyword .alt) := by
  obtain ⟨after, hafter⟩ := Lexed.along_scan names {} (SourceLine.link source)
  constructor
  · intro front back htokens
    rw [← lex, htokens] at hafter
    obtain ⟨middle, hfront, hback⟩ := hafter.split
    have hrecorded : Blocks.Recorded front middle := Blocks.recorded_nil.along hfront
    cases hback with
    | cons halt _ => exact hrecorded.closed (halt.lastWasIf rfl)
  · rintro front ⟨back, htokens⟩
    rw [← lex, ← htokens] at hafter
    obtain ⟨middle, hfront, -⟩ := hafter.split
    have hcount := hfront.count_le
    have hstart : Blocks.openCount {} = 0 := rfl
    omega

end LineCompiler
