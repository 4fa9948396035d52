import LineCompiler.Proofs.Token.Edge
import LineCompiler.Proofs.Token.Ending

/-!
# The last character of a text

On a line that ends with a line feed the last character in front of it is treated in a way of its
own: a semicolon ends its statement, an opening brace is passed over, and most other characters are
refused.  With another ending the same character may do something else (`LastStep`).  So two lines
with the same text, one of which ends with a line feed, are scanned alike up to their last
character, and then to states that differ by one token at most (`scanPart_text`).
-/

namespace LineCompiler.Scan

variable {names : Names} {blocks : Blocks} {line other : SourceLine} {first : Bool}
  {state next otherNext : State} {c : Char} {ending : List Char} {ended : Bool}

/-! ## Endings -/

theorem getLast?_append_cons {front back : List Char} (hback : back ≠ []) :
    (front ++ c :: back).getLast? = back.getLast? := by
  rw [List.getLast?_append, List.getLast?_cons_of_ne_nil hback, List.getLast?_eq_some_getLast hback,
    Option.some_or]

/-- The tokens of a line whose scan comes to the line feed. -/
def State.fed (names : Names) (state : State) : List Token :=
  state.tokens ++ nameTokens names (state.word ++ ['\n'])

/-- The line feed at the end of a line. -/
theorem run_feed (names : Names) (line : SourceLine) (first : Bool) (state : State) :
    run names line first state ['\n'] = ⟨state.ends, .ok ⟨state.fed names, {}, state.blocks⟩⟩ := by
  have hstep : (step line first state '\n' []).onward? names =
      some (identify names { state with word := state.word ++ ['\n'] }) := by
    have hmark : step line first state '\n' [] =
        recognise line [] { state with word := state.word ++ ['\n'] } := by
      simp [step, scanMark, Text.openBrace, Text.closeBrace]
    rw [hmark, recognise,
      ofWord?_eq_none (List.mem_append_right _ (List.mem_singleton_self '\n')) rfl]
    rfl
  rw [run_of_onward hstep]
  rfl

theorem unopened_fed (hstate : Unopened state.tokens) : Unopened (state.fed names) :=
  hstate.append (unopened_nameTokens names _)

theorem closesBlock_fed : ClosesBlock (state.fed names) ↔ ClosesBlock state.tokens :=
  closesBlock_append (not_closesBlock_nameTokens names _)

/-- The word with the line feed does not read like `else`. -/
theorem not_opensSecond_fed {before more : List Token} (htokens : state.tokens = before ++ more)
    (hne : more ≠ []) (hmore : ∀ token ∈ more, token.saysElse = false) :
    ¬ OpensSecond (state.fed names) := by
  rw [State.fed, htokens, List.append_assoc]
  refine not_opensSecond_append (List.append_ne_nil_of_left_ne_nil hne _)
    (List.forall_mem_append.mpr ⟨hmore, ?_⟩)
  exact saysElse_nameTokens (c := '\n') (by simp) (by decide)

/-- The tokens of a line whose scan comes to a comment. -/
def State.commented (state : State) (comment : List Char) : List Token :=
  state.tokens ++ [.of (.mark .comment) (.text "//"), .of .comment (.ofChars comment)]

/-- Spaces and a comment at the end of a line. -/
theorem run_comment (names : Names) (line : SourceLine) (first : Bool) (state : State) (count : Nat)
    (comment : List Char) :
    run names line first state (List.replicate count ' ' ++ '/' :: '/' :: comment) =
      ⟨state.ends, .ok ⟨state.commented comment, {}, state.blocks⟩⟩ := by
  rw [run_spaces]
  exact run_of_result rfl

theorem unopened_commented (hstate : Unopened state.tokens) (comment : List Char) :
    Unopened (state.commented comment) := by
  have hmark : Unopened [.of (.mark .comment) (.text "//")] := unopened_other (by simp) _
  rw [State.commented, List.append_cons]
  exact (hstate.append hmark).append (unopened_other (by simp) _)

theorem closesBlock_commented (comment : List Char) :
    ClosesBlock (state.commented comment) ↔ ClosesBlock state.tokens :=
  closesBlock_append_cons (by decide)

theorem not_opensSecond_commented {comment : List Char} (hcomment : '\n' ∈ comment) :
    ¬ OpensSecond (state.commented comment) := by
  refine not_opensSecond_append (by simp) ?_
  simp only [List.mem_cons, List.not_mem_nil, or_false, forall_eq_or_imp, forall_eq]
  exact ⟨rfl, saysElse_of_mem hcomment (by decide) _⟩

/-! ## The last character -/

/-- What the last character `c` of a text does where a line feed follows it, and where another
ending does; `ended` says whether a semicolon ends its statement in front of that ending. -/
inductive LastStep (names : Names) (ended : Bool) (state : State) (c : Char) : State → State → Prop
  | other (next : State) (hsemicolon : c ≠ ';') (hbrace : c ≠ Text.openBrace) :
      LastStep names ended state c next next
  /-- A brace that is the whole text. -/
  | leading (hc : c = Text.openBrace) :
      LastStep names ended state c (state.push [.symbol .openBrace])
        (state.push [.symbol .openBrace])
  | brace (hc : c = Text.openBrace) :
      LastStep names ended state c state (state.push [.symbol .openBrace])
  | ending (hc : c = ';') (hended : ended = true) :
      LastStep names ended state c (identify names { state.endStatement with word := [';'] })
        (identify names { state.endStatement with word := [';'] })
  | semicolon (hc : c = ';') (hended : ended = false) :
      LastStep names ended state c (identify names { state.endStatement with word := [';'] })
        (identify names { state with word := state.word ++ [';'] })

/-- A mark that is the whole text so far does the same on all lines. -/
theorem exists_onward_scanMark (names : Names) (hword : state.word = []) (c : Char) :
    ∃ next, ∀ line rest, (scanMark line state c rest).onward? names = some next := by
  have hnone : Keyword.ofWord? (state.word ++ [c]) = none := by
    rw [Option.eq_none_iff_forall_ne_some]
    intro keyword hkeyword
    have hlengths : ∀ pair ∈ Keyword.words, pair.2.length ≠ 1 := by decide
    exact hlengths _ (Keyword.mem_words hkeyword) (by simp [hword])
  simp only [scanMark, recognise, hnone]
  split
  · exact ⟨_, fun _ _ => rfl⟩
  · split
    · exact ⟨_, fun _ _ => rfl⟩
    · split
      · exact ⟨_, fun _ _ => rfl⟩
      · exact ⟨_, fun _ _ => rfl⟩

/-- **The last character of a text.** -/
theorem lastStep {scanned : Scanned} (other : SourceLine)
    (hline : (run names line first state [c, '\n']).outcome = .ok scanned)
    (hword : first = true → state.word = []) (hfeed : ending.head? ≠ some '\n')
    (hslash : c = '/' → ending.head? ≠ some '/') (hends : endsStatement ending = .ok ended) :
    ∃ next otherNext, (step line first state c ['\n']).onward? names = some next ∧
      (step other first state c ending).onward? names = some otherNext ∧
      LastStep names ended state c next otherNext := by
  by_cases hsemicolon : c = ';'
  · subst hsemicolon
    have hplain : endsStatement ['\n'] = .ok true := rfl
    cases ended with
    | true => exact ⟨_, _, onward_ending hplain, onward_ending hends, .ending rfl rfl⟩
    | false => exact ⟨_, _, onward_ending hplain, onward_semicolon hends, .semicolon rfl rfl⟩
  · by_cases hspace : c = ' '
    · subst hspace
      exact ⟨state, state, rfl, rfl, .other state (by decide) (by decide)⟩
    · have hcomment : (c = '/' && ending.head? = some '/') = false := by
        by_cases hc : c = '/'
        · simpa [hc] using hslash hc
        · simp [hc]
      have hother : step other first state c ending = scanMark other state c ending := by
        simp [step, hspace, hcomment, hfeed, hsemicolon]
      cases first with
      | true =>
          have hplain : step line true state c ['\n'] = scanMark line state c ['\n'] := by
            simp [step, hspace, hsemicolon]
          by_cases hbrace : c = Text.openBrace
          · subst hbrace
            refine ⟨_, _, ?_, ?_, .leading rfl⟩
            · rw [hplain]
              rfl
            · rw [hother]
              rfl
          · obtain ⟨next, hnext⟩ := exists_onward_scanMark names (hword rfl) c
            refine ⟨next, next, ?_, ?_, .other next hsemicolon hbrace⟩
            · rw [hplain, hnext]
            · rw [hother, hnext]
      | false =>
          by_cases hbrace : c = Text.openBrace
          · subst hbrace
            refine ⟨state, _, rfl, ?_, .brace rfl⟩
            rw [hother]
            rfl
          · -- Any other character is refused in front of the line feed.
            rw [run_cons, step_missingSemicolon (by simp [hspace, hsemicolon, hbrace])] at hline
            cases hline

theorem LastStep.blocks_eq (hlast : LastStep names ended state c next otherNext) :
    otherNext.blocks = next.blocks := by
  cases hlast <;> rfl

theorem LastStep.closesBlock (hlast : LastStep names ended state c next otherNext) :
    ClosesBlock otherNext.tokens ↔ ClosesBlock next.tokens := by
  cases hlast with
  | other | leading | ending => exact Iff.rfl
  | brace => exact closesBlock_append_cons (by decide)
  | semicolon =>
      have hends : ClosesBlock
          (state.tokens ++ [.of .symbol (.text ";")] ++ nameTokens names [';']) ↔
          ClosesBlock state.tokens := by
        rw [List.append_assoc]
        exact closesBlock_append_cons (by decide)
      exact (closesBlock_append (not_closesBlock_nameTokens names _)).trans hends.symm

/-! ## The whole text -/

/-- How two lines with the same text are scanned up to the end of it, the first of which ends with a
line feed: to states that a last character leads to, or to an end within the text. -/
inductive TextScan (names : Names) (blocks : Blocks) (ended : Bool) (text ending : List Char)
    (line other : SourceLine) : Prop
  | reached {next otherNext : State}
      (hline : scanPart names line ['\n'] true { blocks } text = .ok next)
      (hother : scanPart names other ending true { blocks } text = .ok otherNext)
      (hlast : text = [] ∧ otherNext = next ∨
        ∃ c state, text.getLast? = some c ∧ LastStep names ended state c next otherNext)
  | ended {part left : List Char} {result otherResult : Result} (htext : text = part ++ left)
      (hline : scanPart names line (left ++ ['\n']) true { blocks } part = .error result)
      (hother : scanPart names other (left ++ ending) true { blocks } part = .error otherResult)
      (hresults : result.Alike otherResult)

/-- **Two lines with the same text**, where all semicolons but the last one end their statements on
both lines or on neither. -/
theorem scanPart_text {text : List Char} {scanned : Scanned}
    (hlines : SameText text ['\n'] ending line other)
    (hline : (scanLine names blocks line).outcome = .ok scanned) (hfeed : ending.head? ≠ some '\n')
    (hslash : text.getLast? = some '/' → ending.head? ≠ some '/')
    (hends : endsStatement ending = .ok ended)
    (hsame : ∀ front back, text = front ++ ';' :: back → back ≠ [] →
      endsStatement (back ++ ending) = endsStatement (back ++ ['\n'])) :
    TextScan names blocks ended text ending line other := by
  rcases List.eq_nil_or_concat text with rfl | ⟨part, c, htext⟩
  · exact .reached rfl rfl (Or.inl ⟨rfl, rfl⟩)
  · rw [List.concat_eq_append] at htext
    subst htext
    have hspelled : Spelled line (part ++ ([c] ++ ['\n'])) { blocks } :=
      fun _ => ⟨[], by simpa using hlines.content, rfl⟩
    have hagree : ∀ front back, part = front ++ ';' :: back →
        endsStatement (back ++ ([c] ++ ending)) = endsStatement (back ++ ([c] ++ ['\n'])) := by
      rintro front back rfl
      simpa using hsame front (back ++ [c]) (by simp) (by simp)
    obtain ⟨state, hpart, hother⟩ | ⟨result, otherResult, hpart, hother, hresults⟩ :=
      scanPart_alike names true hlines unopened_nil hspelled (by simp) hagree
    · have hrest : (run names line (true && part.isEmpty) state [c, '\n']).outcome =
          .ok scanned := by
        have hwhole := run_append names line ([c] ++ ['\n']) true { blocks } part
        rw [hpart, ← List.append_assoc, ← hlines.content] at hwhole
        exact (congrArg Result.outcome hwhole).symm.trans hline
      have hword : (true && part.isEmpty) = true → state.word = [] := by
        intro hempty
        rw [Bool.true_and, List.isEmpty_iff] at hempty
        subst hempty
        cases hpart
        rfl
      have hslashes : c = '/' → ending.head? ≠ some '/' :=
        fun hc => hslash (by rw [List.getLast?_concat, hc])
      obtain ⟨next, otherNext, hnext, hotherNext, hlast⟩ :=
        lastStep other hrest hword hfeed hslashes hends
      refine .reached ?_ ?_ (Or.inr ⟨c, state, List.getLast?_concat, hlast⟩)
      · rw [scanPart_concat, show c :: ['\n'] = [c] ++ ['\n'] from rfl, hpart]
        exact scanPart_of_onward hnext
      · rw [scanPart_concat, show c :: ending = [c] ++ ending from rfl, hother]
        exact scanPart_of_onward hotherNext
    · exact .ended rfl hpart hother hresults

end LineCompiler.Scan
