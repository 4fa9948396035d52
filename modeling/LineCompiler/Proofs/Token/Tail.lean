import LineCompiler.Proofs.Source.Tail
import LineCompiler.Proofs.Text.Slashes
import LineCompiler.Proofs.Token.Failure
import LineCompiler.Proofs.Token.Gap
import LineCompiler.Proofs.Token.LastCharacter

/-!
# Tails of a line

Spaces at the end of a line, and a comment behind them, are no code, but the scan comes across them.
A line with such a tail is scanned whenever it is without, and with the same names and blocks
(`tailScan_scanLine`).  Its tokens differ if the scan comes to the tail, and then the line may do
something else to the blocks.  `Disturbed` says when: the line `} else {` does not open its block
with a space or a comment behind it, and a block that is closed behind a semicolon is not closed
with a comment.
-/

namespace LineCompiler.Scan

open Text

/-- Whether tokens without a statement do the same to the blocks as other ones. -/
def SameEdges (tokens trailed : List Token) : Prop :=
  (OpensSecond trailed ↔ OpensSecond tokens) ∧ (ClosesBlock trailed ↔ ClosesBlock tokens)

/-- Whether a tail changes what a line does to the blocks; the tokens are those of the line without
the tail and with it. -/
def Disturbed (text : List Char) (tail : Gap) (tokens trailed : List Token) : Prop :=
  match tail.comment with
  | none =>
      tail.indent ≠ 0 ∧ (OpensSecond tokens ∧ text.getLast? = some openBrace ∨
        OpensSecond trailed ∧ text.getLast? = some ';')
  | some _ =>
      OpensSecond tokens ∨
        ClosesBlock tokens ∧ contains ['/', '/'] text = false ∧
        ';' ∈ text.takeWhile (· ≠ closeBrace)

instance (text : List Char) (tail : Gap) (tokens trailed : List Token) :
    Decidable (Disturbed text tail tokens trailed) :=
  match tail with
  | ⟨_, none, _⟩ => inferInstanceAs (Decidable (_ ∧ (_ ∧ _ ∨ _ ∧ _)))
  | ⟨_, some _, _⟩ => inferInstanceAs (Decidable (_ ∨ _ ∧ _ ∧ _))

/-- What the scan of a line with a tail shares with the scan of the line without it. -/
structure TailScan (text : List Char) (tail : Gap) (scanned trailed : Scanned) : Prop
    extends scanned.Similar trailed where
  edges : SameEdges scanned.tokens trailed.tokens ↔
    ¬ Disturbed text tail scanned.tokens trailed.tokens

variable {names : Names} {blocks : Blocks} {line other : SourceLine} {first : Bool}
  {state next otherNext : State} {text ending part left behind : List Char} {tail : Gap}
  {scanned : Scanned} {tokens trailed more : List Token}

theorem SameEdges.refl (tokens : List Token) : SameEdges tokens tokens :=
  ⟨Iff.rfl, Iff.rfl⟩

/-! ## Scans that end within the text -/

/-- A closing brace in front of which the text has a semicolon and no comment. -/
def BehindSemicolon (text part : List Char) : Prop :=
  contains ['/', '/'] text = false ∧ ';' ∈ text.takeWhile (· ≠ closeBrace) ∧ closeBrace ∈ part

theorem tailScan_of_ended {result otherResult : Result}
    (hline : scanPart names line (left ++ ['\n']) true { blocks } part = .error result)
    (hother : scanPart names other (left ++ ending) true { blocks } part = .error otherResult)
    (hresults : result.Alike otherResult) (hresult : result.outcome = .ok scanned)
    (hending : ending.getLast? = some '\n')
    (hbrace : tail.comment ≠ none → ¬ BehindSemicolon text part) :
    ∃ trailed, otherResult.outcome = .ok trailed ∧ TailScan text tail scanned trailed := by
  obtain ⟨trailed, htrailed, hsimilar, hhead⟩ := hresults.of_ok hresult
  have hopens : ¬ OpensSecond scanned.tokens :=
    not_opensSecond_of_scanPart unopened_nil marked_nil hline hresult (by simp)
  have htrailedOpens : ¬ OpensSecond trailed.tokens :=
    not_opensSecond_of_scanPart unopened_nil marked_nil hother htrailed
      (by simp [List.getLast?_append, hending])
  have hedges : SameEdges scanned.tokens trailed.tokens :=
    ⟨iff_of_false htrailedOpens hopens, by rw [ClosesBlock, ClosesBlock, hhead]⟩
  refine ⟨trailed, htrailed, hsimilar, iff_of_true hedges ?_⟩
  unfold Disturbed
  split
  · rintro ⟨-, hsecond | hsecond⟩
    · exact hopens hsecond.1
    · exact htrailedOpens hsecond.1
  · rename_i comment hcomment
    rintro (hsecond | ⟨hcloses, hslashes, hsemicolon⟩)
    · exact hopens hsecond
    · have hmem := closeBrace_mem_of_error hline hresult rfl hcloses
      exact hbrace (by simp [hcomment]) ⟨hslashes, hsemicolon, hmem⟩

/-! ## Spaces -/

private theorem run_spaces_feed (names : Names) (line : SourceLine) (first : Bool) (state : State)
    (count : Nat) :
    run names line first state (List.replicate count ' ' ++ ['\n']) =
      ⟨state.ends, .ok ⟨state.fed names, {}, state.blocks⟩⟩ := by
  rw [run_spaces, run_feed]

/-- What spaces behind the last character change. -/
theorem LastStep.sameEdges {c : Char} (hlast : LastStep names false state c next otherNext) :
    SameEdges (next.fed names) (otherNext.fed names) ↔
      ¬ (OpensSecond (next.fed names) ∧ c = openBrace ∨ OpensSecond (otherNext.fed names) ∧
        c = ';') := by
  have hcloses : ClosesBlock (otherNext.fed names) ↔ ClosesBlock (next.fed names) := by
    rw [closesBlock_fed, closesBlock_fed]
    exact hlast.closesBlock
  have hbrace : ¬ OpensSecond ((state.push [.symbol .openBrace]).fed names) :=
    not_opensSecond_fed rfl (by simp) (by decide)
  rw [SameEdges, and_iff_left hcloses]
  cases hlast with
  | other next hsemicolon hbrace => simp [hsemicolon, hbrace]
  | leading hc => simp [hbrace]
  | brace hc => simp [hbrace, hc, openBrace]
  | ending hc hended => cases hended
  | semicolon hc =>
      have hended : ¬ OpensSecond
          ((identify names { state.endStatement with word := [';'] }).fed names) := by
        have htokens : (identify names { state.endStatement with word := [';'] }).tokens =
            state.tokens ++ .of .symbol (.text ";") :: nameTokens names [';'] :=
          List.append_assoc ..
        refine not_opensSecond_fed htokens (by simp) ?_
        rw [List.forall_mem_cons]
        exact ⟨by decide, saysElse_nameTokens (List.mem_singleton_self _) (by decide)⟩
      simp [hended, hc]

/-- **Spaces at the end of a line.** -/
theorem tailScan_spaces {count : Nat} (hline : (scanLine names blocks line).outcome = .ok scanned)
    (hlines : SameText text ['\n'] (List.replicate (count + 1) ' ' ++ ['\n']) line other)
    (htext : '\n' ∉ text) (hcomment : tail.comment = none) (hindent : tail.indent = count + 1) :
    ∃ trailed, (scanLine names blocks other).outcome = .ok trailed ∧
      TailScan text tail scanned trailed := by
  have hslash : '/' ∉ List.replicate (count + 1) ' ' ++ ['\n'] := by simp
  have hends : endsStatement (List.replicate (count + 1) ' ' ++ ['\n']) = .ok false := by
    rw [endsStatement_of_unended (by simp [List.replicate_succ]) (by simp [List.getLast?_append]),
      contains_eq_false hslash]
  have hsame : ∀ front back, text = front ++ ';' :: back → back ≠ [] →
      endsStatement (back ++ (List.replicate (count + 1) ' ' ++ ['\n'])) =
        endsStatement (back ++ ['\n']) := by
    rintro front back rfl hne
    have hback : '\n' ∉ back := fun hmem => htext (by simp [hmem])
    rw [endsStatement_append hne hback (by simp [List.getLast?_append]),
      endsStatement_append hne hback rfl, contains_append_of_not_mem hslash,
      contains_append_of_not_mem (by simp)]
  have hdisturbed : ∀ tokens trailed, Disturbed text tail tokens trailed ↔
      OpensSecond tokens ∧ text.getLast? = some openBrace ∨ OpensSecond trailed ∧
      text.getLast? = some ';' := by
    intro tokens trailed
    simp only [Disturbed, hcomment, hindent]
    simp
  cases scanPart_text hlines hline (by simp [List.replicate_succ])
    (fun _ => by simp [List.replicate_succ]) hends
      hsame with
  | @ended part left result otherResult hparts hpart hotherPart hresults =>
      have hcontent : line.content.toList = part ++ (left ++ ['\n']) := by
        rw [hlines.content, hparts, List.append_assoc]
      have hotherContent : other.content.toList =
          part ++ (left ++ (List.replicate (count + 1) ' ' ++ ['\n'])) := by
        rw [hlines.otherContent, hparts, List.append_assoc]
      rw [scanLine_of_content hcontent, hpart] at hline
      rw [scanLine_of_content hotherContent, hotherPart]
      exact tailScan_of_ended hpart hotherPart hresults hline (by simp [List.getLast?_append])
        (absurd hcomment)
  | @reached next otherNext hpart hotherPart hlast =>
      rw [scanLine_of_content hlines.content, hpart, continueRun, run_feed] at hline
      rw [scanLine_of_content hlines.otherContent, hotherPart, continueRun, run_spaces_feed]
      cases hline
      have hunopened : Unopened (next.fed names) ∧ Unopened (otherNext.fed names) :=
        ⟨unopened_fed (unopened_of_scanPart hpart unopened_nil),
          unopened_fed (unopened_of_scanPart hotherPart unopened_nil)⟩
      obtain ⟨rfl, rfl⟩ | ⟨c, state, hc, hlast⟩ := hlast
      · refine ⟨_, rfl, ⟨rfl, rfl, Or.inl rfl⟩, iff_of_true (.refl _) ?_⟩
        rw [hdisturbed]
        simp
      · refine ⟨_, rfl, ⟨rfl, hlast.blocks_eq, Or.inr hunopened⟩, ?_⟩
        rw [hdisturbed, hc, Option.some.injEq, Option.some.injEq]
        exact hlast.sameEdges

/-! ## Comments -/

/-- Spaces and a comment, with the line feed at its end. -/
def commentTail (count : Nat) (comment : List Char) : List Char :=
  List.replicate count ' ' ++ '/' :: '/' :: (comment ++ ['\n'])

section Comments

variable {count : Nat} {comment : List Char}

theorem getLast?_commentTail : (commentTail count comment).getLast? = some '\n' := by
  rw [commentTail, ← List.cons_append, ← List.cons_append, ← List.append_assoc,
    List.getLast?_concat]

theorem head?_commentTail : (commentTail count comment).head? ≠ some '\n' := by
  cases count <;> simp [commentTail, List.replicate_succ]

/-- In front of a comment all semicolons end their statements. -/
theorem endsStatement_commentTail {back : List Char} (hback : '\n' ∉ back) :
    endsStatement (back ++ commentTail count comment) = .ok true := by
  have hslashes : contains ['/', '/'] (back ++ commentTail count comment) = true := by
    rw [commentTail, ← List.append_assoc]
    exact contains_append_slashes _ _
  rw [endsStatement_of_unended, hslashes]
  · cases back with
    | nil => exact head?_commentTail
    | cons c rest =>
        intro hhead
        exact hback (by simp [Option.some.inj hhead])
  · simp [List.getLast?_append, getLast?_commentTail]

/-- A line whose scan comes to the comment opens no second block. -/
theorem sameEdges_of_comment {content : String} (htail : tail.comment = some content)
    (hopens : ¬ OpensSecond trailed)
    (hcloses : (ClosesBlock trailed ↔ ClosesBlock tokens) ↔
      ¬ (ClosesBlock tokens ∧ contains ['/', '/'] text = false ∧
        ';' ∈ text.takeWhile (· ≠ closeBrace))) :
    SameEdges tokens trailed ↔ ¬ Disturbed text tail tokens trailed := by
  simp only [SameEdges, Disturbed, htail, not_or, hopens, false_iff, hcloses]

/-! ### A comment behind a comment -/

private theorem scanPart_slashes (names : Names) (line : SourceLine) (behind : List Char)
    (first : Bool) (state : State) (part : List Char) (after : State) :
    scanPart names line ('/' :: behind) first state (part ++ ['/']) ≠ .ok after := by
  rw [scanPart_concat]
  cases scanPart names line ('/' :: '/' :: behind) first state part with
  | error result => exact fun hok => by cases hok
  | ok reached => exact fun hok => by cases hok

/-- A comment behind another one is not met. -/
theorem tailScan_of_slashes (hline : (scanLine names blocks line).outcome = .ok scanned)
    (hlines : SameText text ['\n'] (commentTail count comment) line other) (htext : '\n' ∉ text)
    (hslashes : contains ['/', '/'] text = true) :
    ∃ trailed, (scanLine names blocks other).outcome = .ok trailed ∧
      TailScan text tail scanned trailed := by
  obtain ⟨front, back, hparts⟩ := exists_of_contains hslashes
  have hsplit : text = front ++ ['/'] ++ '/' :: back := by simp [hparts]
  have hcontent : line.content.toList = front ++ ['/'] ++ ('/' :: back ++ ['\n']) := by
    rw [hlines.content, hsplit, List.append_assoc]
  have hotherContent : other.content.toList =
      front ++ ['/'] ++ ('/' :: back ++ commentTail count comment) := by
    rw [hlines.otherContent, hsplit, List.append_assoc]
  have hspelled : Spelled line (front ++ ['/'] ++ ('/' :: back ++ ['\n'])) { blocks } :=
    fun _ => ⟨[], by simpa using hcontent, rfl⟩
  have hends : ∀ before behind, front ++ ['/'] = before ++ ';' :: behind →
      endsStatement (behind ++ ('/' :: back ++ commentTail count comment)) =
        endsStatement (behind ++ ('/' :: back ++ ['\n'])) := by
    intro before behind hpart
    have hfeed : '\n' ∉ behind ++ '/' :: back := by
      rw [hsplit, hpart] at htext
      simp only [List.mem_append, List.mem_cons, not_or] at htext ⊢
      exact ⟨htext.1.2.2, htext.2⟩
    have hbehind : contains ['/', '/'] (behind ++ '/' :: back) = true := by
      rcases List.eq_nil_or_concat behind with rfl | ⟨others, last, rfl⟩
      · exact absurd (congrArg List.getLast? hpart) (by simp [List.getLast?_append])
      · have hlast := congrArg List.getLast? hpart
        rw [List.getLast?_concat, List.concat_eq_append, ← List.cons_append, ← List.append_assoc,
          List.getLast?_concat] at hlast
        obtain rfl := Option.some.inj hlast
        rw [List.concat_eq_append, List.append_assoc]
        exact contains_append_slashes others back
    rw [← List.append_assoc, ← List.append_assoc, endsStatement_commentTail hfeed,
      endsStatement_append (by simp) hfeed rfl, contains_append_of_not_mem (by simp), hbehind]
  obtain ⟨after, hpart, -⟩ | ⟨result, otherResult, hpart, hotherPart, hresults⟩ :=
    scanPart_alike names true hlines unopened_nil hspelled (List.cons_ne_nil _ _) hends
  · exact absurd hpart (scanPart_slashes names line (back ++ ['\n']) true { blocks } front after)
  · rw [scanLine_of_content hcontent, hpart] at hline
    rw [scanLine_of_content hotherContent, hotherPart]
    refine tailScan_of_ended hpart hotherPart hresults hline getLast?_commentTail
      fun _ hbehind => ?_
    exact absurd (hslashes.symm.trans hbehind.1) (by decide)

/-! ### A comment behind a statement that has not ended -/

theorem semicolon_mem_takeWhile {front : List Char} (hfront : ';' ∉ front) (back : List Char) :
    ';' ∈ (front ++ ';' :: back).takeWhile (· ≠ closeBrace) ↔ closeBrace ∉ front := by
  induction front with
  | nil => simp [closeBrace]
  | cons c rest ih =>
      rw [List.mem_cons, not_or] at hfront
      by_cases hc : c = closeBrace
      · simp [hc]
      · have hrest := ih hfront.2
        simp only [List.cons_append, List.takeWhile_cons, hc, ne_eq, not_false_eq_true, decide_true,
          if_true, List.mem_cons, hfront.1, false_or, Ne.symm hc] at hrest ⊢
        exact hrest

theorem eq_nil_of_dropLast {front back : List Char} (htext : ';' ∉ text.dropLast)
    (hparts : text = front ++ ';' :: back) : back = [] := by
  cases back with
  | nil => rfl
  | cons c back =>
      rw [hparts, List.dropLast_append_of_ne_nil (List.cons_ne_nil _ _),
        List.dropLast_cons_of_ne_nil (List.cons_ne_nil _ _)] at htext
      exact absurd (by simp) htext

/-- A semicolon that is the last character comes behind all closing braces. -/
theorem not_behindSemicolon (htext : ';' ∉ text.dropLast) : ¬ BehindSemicolon text text := by
  rintro ⟨-, hsemicolon, hbrace⟩
  obtain ⟨front, back, hparts, hfront⟩ :=
    List.eq_append_cons_of_mem ((List.takeWhile_sublist _).mem hsemicolon)
  obtain rfl := eq_nil_of_dropLast htext hparts
  rw [hparts, semicolon_mem_takeWhile hfront] at hsemicolon
  rw [hparts, List.mem_append, List.mem_singleton] at hbrace
  exact hbrace.elim hsemicolon (by decide)

/-- The only semicolon, if there is one, is the last character. -/
theorem tailScan_of_unended {content : String}
    (hline : (scanLine names blocks line).outcome = .ok scanned)
    (hlines : SameText text ['\n'] (commentTail count comment) line other)
    (hlast : text.getLast? ≠ some '/') (htail : tail.comment = some content)
    (htext : ';' ∉ text.dropLast) :
    ∃ trailed, (scanLine names blocks other).outcome = .ok trailed ∧
      TailScan text tail scanned trailed := by
  have hsame : ∀ front back, text = front ++ ';' :: back → back ≠ [] →
      endsStatement (back ++ commentTail count comment) = endsStatement (back ++ ['\n']) := by
    intro front back hparts hne
    exact absurd (eq_nil_of_dropLast htext hparts) hne
  have hends : endsStatement (commentTail count comment) = .ok true :=
    endsStatement_commentTail List.not_mem_nil
  cases scanPart_text hlines hline head?_commentTail
    (fun hslash => absurd hslash hlast) hends hsame with
  | @ended part left result otherResult hparts hpart hotherPart hresults =>
      have hcontent : line.content.toList = part ++ (left ++ ['\n']) := by
        rw [hlines.content, hparts, List.append_assoc]
      have hotherContent : other.content.toList = part ++ (left ++ commentTail count comment) := by
        rw [hlines.otherContent, hparts, List.append_assoc]
      rw [scanLine_of_content hcontent, hpart] at hline
      rw [scanLine_of_content hotherContent, hotherPart]
      refine tailScan_of_ended hpart hotherPart hresults hline getLast?_commentTail
        fun _ hbehind => ?_
      refine not_behindSemicolon htext ⟨hbehind.1, hbehind.2.1, ?_⟩
      rw [hparts]
      exact List.mem_append_left _ hbehind.2.2
  | @reached next otherNext hpart hotherPart hlast =>
      rw [scanLine_of_content hlines.content, hpart, continueRun, run_feed] at hline
      rw [scanLine_of_content hlines.otherContent, hotherPart, continueRun, commentTail,
        run_comment]
      cases hline
      have hblocks : otherNext.blocks = next.blocks := by
        obtain ⟨-, rfl⟩ | ⟨c, state, -, hlast⟩ := hlast
        · rfl
        · exact hlast.blocks_eq
      have hcloses : ClosesBlock (otherNext.commented (comment ++ ['\n'])) ↔
          ClosesBlock (next.fed names) := by
        rw [closesBlock_commented, closesBlock_fed]
        obtain ⟨-, rfl⟩ | ⟨c, state, -, hlast⟩ := hlast
        · exact Iff.rfl
        · exact hlast.closesBlock
      have hunopened : Unopened (next.fed names) ∧
          Unopened (otherNext.commented (comment ++ ['\n'])) :=
        ⟨unopened_fed (unopened_of_scanPart hpart unopened_nil),
          unopened_commented (unopened_of_scanPart hotherPart unopened_nil) _⟩
      refine ⟨_, rfl, ⟨rfl, hblocks, Or.inr hunopened⟩, ?_⟩
      refine sameEdges_of_comment htail (not_opensSecond_commented (by simp))
        (iff_of_true hcloses ?_)
      rintro ⟨hclosed, hslashes, hsemicolon⟩
      have hbrace := closeBrace_mem_of_ok hpart rfl (closesBlock_fed.mp hclosed)
      exact not_behindSemicolon htext ⟨hslashes, hsemicolon, hbrace⟩

/-! ### A comment behind a statement that has ended -/

/-- The last character of a line behind a semicolon. -/
theorem onward_settled_last {c : Char} (hword : ';' ∈ state.word)
    (hline : (run names line false state [c, '\n']).outcome = .ok scanned) :
    ∃ next more, (step line false state c ['\n']).onward? names = some next ∧ ';' ∈ next.word ∧
      next.blocks = state.blocks.closedAt c ∧ next.tokens = state.tokens ++ more ∧
      SettledTokens state.blocks more := by
  have hpassed : ∀ d : Char, d ≠ closeBrace →
      (step line false state d ['\n']).onward? names = some state →
      ∃ next more, (step line false state d ['\n']).onward? names = some next ∧ ';' ∈ next.word ∧
        next.blocks = state.blocks.closedAt d ∧ next.tokens = state.tokens ++ more ∧
        SettledTokens state.blocks more :=
    fun d hd hstep => ⟨state, [], hstep, hword, (Blocks.closedAt_of_ne hd _).symm,
      (List.append_nil _).symm, settledTokens_nil _⟩
  by_cases hspace : c = ' '
  · subst hspace
    exact hpassed ' ' (by decide) rfl
  · by_cases hbrace : c = openBrace
    · subst hbrace
      exact hpassed openBrace (by decide) rfl
    · by_cases hsemicolon : c = ';'
      · subst hsemicolon
        exact ⟨_, _, onward_ending rfl, List.mem_singleton_self _,
          (Blocks.closedAt_of_ne (by decide) _).symm, List.append_assoc ..,
          settledTokens_ending names state.blocks⟩
      · rw [run_cons, step_missingSemicolon (by simp [hspace, hsemicolon, hbrace])] at hline
        cases hline

/-- What is behind a semicolon, up to the line feed. -/
theorem run_settled (hstate : Unopened state.tokens) (hword : ';' ∈ state.word) (hne : part ≠ [])
    (hslashes : contains ['/', '/'] part = false) (hfeed : '\n' ∉ part)
    (hline : (run names line false state (part ++ ['\n'])).outcome = .ok scanned) :
    ∃ more, scanned = ⟨state.tokens ++ more, {}, state.blocks.closedBy part⟩ ∧
      Unopened (state.tokens ++ more) ∧
      SettledTokens state.blocks more := by
  obtain ⟨front, c, rfl⟩ := (List.eq_nil_or_concat part).resolve_left hne
  rw [List.concat_eq_append] at hslashes hfeed hline ⊢
  have hparts : '\n' ∉ front ∧ '\n' ≠ c := by simpa [not_or] using hfeed
  obtain ⟨after, found, hpart, hafterWord, hafter, htokens, hfound⟩ :=
    scanPart_settled names line [c, '\n'] false hword hslashes hparts.1
      (by simpa [eq_comm] using hparts.2) rfl
  rw [List.append_assoc, List.singleton_append, run_append, hpart, Bool.false_and, continueRun]
    at hline
  obtain ⟨next, more, hstep, hnextWord, hnext, hnextTokens, hmore⟩ :=
    onward_settled_last hafterWord hline
  have hunopened := unopened_of_onward (unopened_of_scanPart hpart hstate) hstep
  rw [run_of_onward hstep, run_feed] at hline
  cases hline
  have hfed : next.fed names =
      state.tokens ++ (found ++ more ++ nameTokens names (next.word ++ ['\n'])) := by
    simp only [State.fed, hnextTokens, htokens, List.append_assoc]
  have hblocks : next.blocks = state.blocks.closedBy (front ++ [c]) := by
    rw [hnext, hafter, Blocks.closedBy, Blocks.closedBy, List.foldl_append]
    rfl
  rw [hafter] at hmore
  refine ⟨_, by rw [hfed, hblocks], hfed ▸ unopened_fed hunopened,
    (hfound.append hmore.of_closedBy).append ?_⟩
  exact settledTokens_nameTokens (List.mem_append_left _ hnextWord) _

/-- What is behind a semicolon, up to a comment. -/
theorem run_settled_comment (names : Names) (line : SourceLine) (hstate : Unopened state.tokens)
    (hword : ';' ∈ state.word) (hslashes : contains ['/', '/'] part = false)
    (hlast : part.getLast? ≠ some '/') (hfeed : '\n' ∉ part) :
    ∃ more, (run names line false state (part ++ commentTail count comment)).outcome =
        .ok ⟨state.tokens ++ more, {}, state.blocks.closedBy part⟩ ∧
      Unopened (state.tokens ++ more) ∧ ¬ OpensSecond (state.tokens ++ more) := by
  have hpair : contains ['/', '/'] (part ++ (commentTail count comment).take 1) = false := by
    rw [contains_append fun hslash => absurd hslash hlast, hslashes, Bool.false_or]
    cases count <;> rfl
  obtain ⟨after, more, hpart, -, hafter, htokens, -⟩ :=
    scanPart_settled names line (commentTail count comment) false hword hpair hfeed
      head?_commentTail
      getLast?_commentTail
  have hcommented := unopened_commented (unopened_of_scanPart hpart hstate) (comment ++ ['\n'])
  have hopens : ¬ OpensSecond (after.commented (comment ++ ['\n'])) :=
    not_opensSecond_commented (by simp)
  rw [run_append, hpart, continueRun, commentTail, run_comment, hafter]
  rw [State.commented, htokens, List.append_assoc] at hcommented hopens ⊢
  exact ⟨_, rfl, hcommented, hopens⟩

/-- Tokens behind a semicolon put a closing brace in front only where no brace has been met before
it. -/
theorem closesBlock_settled_iff {front : List Char}
    (hpart : scanPart names line behind true { blocks } front = .ok state)
    (hmore : SettledTokens state.blocks more) :
    (ClosesBlock state.tokens ↔ ClosesBlock (state.tokens ++ more)) ↔
      ¬ (ClosesBlock (state.tokens ++ more) ∧ closeBrace ∉ front) := by
  by_cases hnil : state.tokens = []
  · have hnone : ¬ ClosesBlock state.tokens := by simp [hnil, ClosesBlock]
    have hunmet : ClosesBlock (state.tokens ++ more) → closeBrace ∉ front := by
      intro hcloses
      rw [hnil, List.nil_append] at hcloses
      have hopen := hmore.closes (List.mem_of_head? hcloses)
      obtain ⟨hblocks, hfront⟩ := closeBrace_not_mem_of_nil hpart unopened_nil hnil
      rw [hblocks] at hopen
      exact hfront hopen
    rw [iff_false_left hnone, and_iff_left_of_imp hunmet]
  · have hsame : ClosesBlock (state.tokens ++ more) ↔ ClosesBlock state.tokens := by
      obtain ⟨token, tokens, htokens⟩ := List.exists_cons_of_ne_nil hnil
      rw [htokens]
      exact Iff.rfl
    refine iff_of_true hsame.symm ?_
    rintro ⟨hcloses, hfront⟩
    exact hfront (closeBrace_mem_of_ok hpart rfl (hsame.mp hcloses))

/-- A first semicolon that ends its statement only with the comment. -/
theorem tailScan_of_semicolon {content : String} {front back : List Char}
    (hline : (scanLine names blocks line).outcome = .ok scanned)
    (hlines : SameText text ['\n'] (commentTail count comment) line other) (htext : '\n' ∉ text)
    (hlast : text.getLast? ≠ some '/') (htail : tail.comment = some content)
    (hslashes : contains ['/', '/'] text = false) (hparts : text = front ++ ';' :: back)
    (hfront : ';' ∉ front) (hback : back ≠ []) :
    ∃ trailed, (scanLine names blocks other).outcome = .ok trailed ∧
      TailScan text tail scanned trailed := by
  have hcontent : line.content.toList = front ++ (';' :: back ++ ['\n']) := by
    rw [hlines.content, hparts, List.append_assoc]
  have hotherContent : other.content.toList =
      front ++ (';' :: back ++ commentTail count comment) := by
    rw [hlines.otherContent, hparts, List.append_assoc]
  have hspelled : Spelled line (front ++ (';' :: back ++ ['\n'])) { blocks } :=
    fun _ => ⟨[], by simpa using hcontent, rfl⟩
  have hbehind := semicolon_mem_takeWhile hfront back
  rw [← hparts] at hbehind
  obtain ⟨state, hpart, hotherPart⟩ | ⟨result, otherResult, hpart, hotherPart, hresults⟩ :=
    scanPart_alike names true hlines unopened_nil hspelled (List.cons_ne_nil _ _)
      fun before behind hsplit => absurd (by simp [hsplit]) hfront
  · have hstate := unopened_of_scanPart hpart unopened_nil
    rw [scanLine_of_content hcontent, hpart, continueRun] at hline
    rw [scanLine_of_content hotherContent, hotherPart, continueRun]
    have hfeed : '\n' ∉ back := fun hmem => htext (by simp [hparts, hmem])
    have hbackLast : back.getLast? ≠ some '/' := by
      rwa [hparts, getLast?_append_cons hback] at hlast
    have hbackSlashes : contains ['/', '/'] back = false := by
      rw [Bool.eq_false_iff]
      intro hcontains
      obtain ⟨before, behind, rfl⟩ := exists_of_contains hcontains
      rw [hparts, ← List.cons_append, ← List.append_assoc, contains_append_slashes] at hslashes
      cases hslashes
    have hunended : endsStatement (back ++ ['\n']) = .ok false := by
      rw [endsStatement_append hback hfeed rfl, contains_append_of_not_mem (by simp), hbackSlashes]
    have hended : endsStatement (back ++ commentTail count comment) = .ok true :=
      endsStatement_commentTail hfeed
    have hjoined : Unopened (identify names { state with word := state.word ++ [';'] }).tokens :=
      hstate.append (unopened_nameTokens names _)
    have hseparate : Unopened (identify names { state.endStatement with word := [';'] }).tokens :=
      Unopened.append (hstate.append (unopened_other (by simp) _)) (unopened_nameTokens names _)
    rw [List.cons_append, run_of_onward (onward_semicolon hunended)] at hline
    rw [List.cons_append, run_of_onward (onward_ending hended)]
    obtain ⟨more, rfl, hunopened, hmore⟩ :=
      run_settled hjoined (by simp [identify, State.push]) hback hbackSlashes
      hfeed hline
    obtain ⟨others, hother, hothers, hopens⟩ := run_settled_comment names other hseparate
      (by simp [identify, State.push]) hbackSlashes hbackLast hfeed
    refine ⟨_, hother, ⟨rfl, rfl, Or.inr ⟨hunopened, hothers⟩⟩,
      sameEdges_of_comment htail hopens ?_⟩
    have hnames : SettledTokens state.blocks (nameTokens names (state.word ++ [';'])) :=
      settledTokens_nameTokens (by simp) state.blocks
    have htokens : (identify names { state with word := state.word ++ [';'] }).tokens ++ more =
        state.tokens ++ (nameTokens names (state.word ++ [';']) ++ more) := List.append_assoc ..
    have hcloses : ClosesBlock
        ((identify names { state.endStatement with word := [';'] }).tokens ++ others) ↔
        ClosesBlock state.tokens := by
      simp only [identify, State.push, State.endStatement, List.append_assoc, List.singleton_append]
      exact closesBlock_append_cons (by decide)
    rw [hslashes, hbehind, eq_self, true_and, htokens, hcloses]
    exact closesBlock_settled_iff hpart (hnames.append hmore)
  · rw [scanLine_of_content hcontent, hpart] at hline
    rw [scanLine_of_content hotherContent, hotherPart]
    refine tailScan_of_ended hpart hotherPart hresults hline getLast?_commentTail fun _ hbrace => ?_
    exact hbehind.mp hbrace.2.1 hbrace.2.2

end Comments

/-! ## Tails -/

/-- **The scan of a line with a tail.**  The quotes of the line are closed, and it does not end with
a slash. -/
theorem tailScan_scanLine (hline : (scanLine names blocks line).outcome = .ok scanned)
    (hnumber : other.number = line.number) (hcontent : line.content.toList = text ++ ['\n'])
    (hotherContent : other.content.toList = text ++ (tail.text ++ ['\n'])) (htext : '\n' ∉ text)
    (hquotes : Source.QuotesClosed text) (hlast : text.getLast? ≠ some '/') :
    ∃ trailed, (scanLine names blocks other).outcome = .ok trailed ∧
      TailScan text tail scanned trailed := by
  cases hcomment : tail.comment with
  | none =>
      cases hindent : tail.indent with
      | zero =>
          have hcontents : other.content = line.content := by
            rw [← String.toList_inj, hcontent, hotherContent]
            simp [Gap.text, hcomment, hindent]
          have hsame : scanLine names blocks other = scanLine names blocks line := by
            refine scanLine_congr ?_ names blocks
            rw [SourceLine.renumber, SourceLine.renumber, hcontents, hnumber]
          refine ⟨scanned, by rw [hsame, hline], ⟨rfl, rfl, Or.inl rfl⟩, iff_of_true (.refl _) ?_⟩
          simp [Disturbed, hcomment, hindent]
      | succ count =>
          have htail : tail.text ++ ['\n'] = List.replicate (count + 1) ' ' ++ ['\n'] := by
            simp [Gap.text, hcomment, hindent]
          rw [htail] at hotherContent
          refine tailScan_spaces hline ⟨hnumber, hcontent, hotherContent, ?_⟩ htext hcomment hindent
          rw [hcontent, hotherContent, Source.stripComment_append_spaces,
            Source.stripComment_append_feed]
  | some content =>
      have htail : tail.text ++ ['\n'] = commentTail tail.indent content.toList := by
        simp [Gap.text, hcomment, commentTail]
      rw [htail] at hotherContent
      have hlines : SameText text ['\n'] (commentTail tail.indent content.toList) line other := by
        refine ⟨hnumber, hcontent, hotherContent, ?_⟩
        rw [hcontent, hotherContent, commentTail, Source.stripComment_append_tail hquotes hlast,
          Source.stripComment_append_feed]
      cases hslashes : contains ['/', '/'] text with
      | true => exact tailScan_of_slashes hline hlines htext hslashes
      | false =>
          by_cases hsemicolon : ';' ∈ text.dropLast
          · obtain ⟨front, back, hparts, hfront⟩ := List.eq_append_cons_of_mem hsemicolon
            have hne : text ≠ [] := fun hnil => by simp [hnil] at hsemicolon
            have hsplit : text = front ++ ';' :: (back ++ [text.getLast hne]) := by
              rw [← List.cons_append, ← List.append_assoc, ← hparts, List.dropLast_concat_getLast]
            exact tailScan_of_semicolon hline hlines htext hlast hcomment hslashes hsplit
              hfront (by simp)
          · exact tailScan_of_unended hline hlines hlast hcomment hsemicolon

end LineCompiler.Scan
