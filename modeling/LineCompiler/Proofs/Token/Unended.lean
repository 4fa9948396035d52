import LineCompiler.Proofs.Source.Tail
import LineCompiler.Proofs.Text.Slashes
import LineCompiler.Proofs.Token.LastCharacter

/-!
# A line without its line feed

The last line of a source may lack its line feed.  It is then scanned like the line with it, and
closes a block if that one does (`unfed_scanLine`), unless it ends with a slash.  A semicolon that
the scan comes to asks for the character behind that slash, and there is none.
-/

namespace LineCompiler.Scan

variable {names : Names} {blocks : Blocks} {line other : SourceLine} {first : Bool}
  {state next : State} {c : Char} {rest text part behind : List Char} {scanned : Scanned}

/-! ## How many statements end -/

/-- The count of ended statements after a step. -/
def Step.ends : Step → Nat
  | .next state | .compare state | .done state _ | .fail state _ => state.ends

theorem finish_ends (state : State) (elements : Except Fault (List Token))
    (declared : List Token → Names) :
    (finish state elements declared).ends = state.ends := by
  cases elements <;> rfl

private theorem recognise_ends (line : SourceLine) (rest : List Char) (state : State) :
    (recognise line rest state).ends = state.ends := by
  unfold recognise
  split
  · exact finish_ends ..
  · exact finish_ends ..
  · exact finish_ends ..
  · exact finish_ends ..
  · dsimp only
    split <;> rfl
  · dsimp only
    split <;> rfl
  · exact finish_ends ..
  · exact finish_ends ..
  · exact finish_ends ..
  · exact finish_ends ..
  · rfl
  · rfl

theorem scanMark_ends (line : SourceLine) (state : State) (c : Char) (rest : List Char) :
    (scanMark line state c rest).ends = state.ends := by
  unfold scanMark
  split
  · rfl
  · split
    · rfl
    · split
      · rfl
      · exact recognise_ends ..

/-- Only a semicolon ends a statement. -/
theorem step_ends (hc : c ≠ ';') : (step line first state c rest).ends = state.ends := by
  unfold step
  split
  · rfl
  · split
    · rfl
    · split
      · split <;> rfl
      · exact scanMark_ends ..

theorem le_step_ends : state.ends ≤ (step line first state c rest).ends := by
  by_cases hc : c = ';'
  · subst hc
    cases hends : endsStatement rest with
    | error fault => simp [step, hends, Step.ends]
    | ok ended =>
        have hstep : step line first state ';' rest =
            scanMark line (if ended then state.endStatement else state) ';' rest := by
          cases ended <;> simp [step, hends]
        rw [hstep, scanMark_ends]
        cases ended with
        | false => exact Nat.le_refl _
        | true => exact Nat.le_succ _
  · exact Nat.le_of_eq (step_ends hc).symm

theorem Step.ends_of_onward {step : Step} (hstep : step.onward? names = some next) :
    next.ends = step.ends := by
  cases step with
  | next state | compare state =>
      cases hstep
      rfl
  | done state declared | fail state fault => cases hstep

theorem Step.ends_of_result {step : Step} {result : Result} (hstep : step.result? = some result) :
    result.ends = step.ends := by
  cases step with
  | next state | compare state => cases hstep
  | done state declared | fail state fault =>
      cases hstep
      rfl

private theorem le_run_ends (names : Names) (line : SourceLine) (first : Bool) (state : State)
    (chars : List Char) :
    state.ends ≤ (run names line first state chars).ends := by
  induction chars generalizing first state with
  | nil => exact Nat.le_refl _
  | cons c rest ih =>
      obtain ⟨next, hnext⟩ | ⟨result, hresult⟩ :=
        (step line first state c rest).onward_or_result names
      · rw [run_of_onward hnext]
        exact Nat.le_trans (Step.ends_of_onward hnext ▸ le_step_ends) (ih false next)
      · rw [run_of_result hresult, Step.ends_of_result hresult]
        exact le_step_ends

/-- The count of ended statements behind a part. -/
def endsBehind : Except Result State → Nat
  | .ok state => state.ends
  | .error result => result.ends

theorem endsBehind_scanPart (names : Names) (line : SourceLine) (behind : List Char) (first : Bool)
    (state : State) (hpart : ';' ∉ part) :
    endsBehind (scanPart names line behind first state part) = state.ends := by
  induction part generalizing first state with
  | nil => rfl
  | cons c rest ih =>
      rw [List.mem_cons, not_or] at hpart
      have hends : (step line first state c (rest ++ behind)).ends = state.ends :=
        step_ends (Ne.symm hpart.1)
      obtain ⟨next, hnext⟩ | ⟨result, hresult⟩ :=
        (step line first state c (rest ++ behind)).onward_or_result names
      · rw [scanPart_of_onward hnext, ih false next hpart.2, Step.ends_of_onward hnext, hends]
      · rw [scanPart_of_result hresult, endsBehind, Step.ends_of_result hresult, hends]

private theorem scanLine_ends (names : Names) (blocks : Blocks)
    (hline : ';' ∉ line.content.toList) :
    (scanLine names blocks line).ends = 0 := by
  have hends := endsBehind_scanPart names line [] true { blocks } hline
  rw [scanLine_of_content (List.append_nil _).symm]
  cases hpart : scanPart names line [] true { blocks } line.content.toList with
  | ok state | error result =>
      rw [hpart] at hends
      exact hends

/-! ## The end of the line -/

/-- What the scan of a line shares with the scan of the line without its line feed. -/
structure Unfed (scanned unfed : Scanned) : Prop extends scanned.Similar unfed where
  closes : ClosesBlock unfed.tokens ↔ ClosesBlock scanned.tokens

theorem Result.Alike.unfed {result otherResult : Result} (hresults : result.Alike otherResult)
    (hresult : result.outcome = .ok scanned) :
    ∃ unfed, otherResult.outcome = .ok unfed ∧ Unfed scanned unfed := by
  obtain ⟨unfed, hunfed, hsimilar, hhead⟩ := hresults.of_ok hresult
  exact ⟨unfed, hunfed, hsimilar, by rw [ClosesBlock, ClosesBlock, hhead]⟩

/-- A line on which all semicolons but the last one end their statements with the line feed or
without. -/
theorem unfed_of_text (hlines : SameText text ['\n'] [] line other)
    (hline : (scanLine names blocks line).outcome = .ok scanned)
    (hsame : ∀ front back, text = front ++ ';' :: back → back ≠ [] →
      endsStatement (back ++ []) = endsStatement (back ++ ['\n'])) :
    ∃ unfed, (scanLine names blocks other).outcome = .ok unfed ∧ Unfed scanned unfed := by
  cases scanPart_text hlines hline (by simp) (by simp) rfl hsame with
  | @ended part left result otherResult hparts hpart hotherPart hresults =>
      have hcontent : line.content.toList = part ++ (left ++ ['\n']) := by
        rw [hlines.content, hparts, List.append_assoc]
      have hotherContent : other.content.toList = part ++ (left ++ []) := by
        rw [hlines.otherContent, hparts, List.append_assoc]
      rw [scanLine_of_content hcontent, hpart] at hline
      rw [scanLine_of_content hotherContent, hotherPart]
      exact hresults.unfed hline
  | @reached next otherNext hpart hotherPart hlast =>
      rw [scanLine_of_content hlines.content, hpart, continueRun, run_feed] at hline
      rw [scanLine_of_content hlines.otherContent, hotherPart, continueRun, run]
      cases hline
      have hunopened : Unopened (next.fed names) ∧ Unopened otherNext.tokens :=
        ⟨unopened_fed (unopened_of_scanPart hpart unopened_nil),
          unopened_of_scanPart hotherPart unopened_nil⟩
      obtain ⟨-, rfl⟩ | ⟨c, state, -, hlast⟩ := hlast
      · exact ⟨_, rfl, ⟨rfl, rfl, Or.inr hunopened⟩, closesBlock_fed.symm⟩
      · exact ⟨_, rfl, ⟨rfl, hlast.blocks_eq, Or.inr hunopened⟩,
          hlast.closesBlock.trans closesBlock_fed.symm⟩

/-- A line that ends with a slash is refused where a semicolon is met that does not end its
statement. -/
theorem contains_of_settled (hword : ';' ∈ state.word) (hlast : part.getLast? = some '/')
    (hfeed : '\n' ∉ part)
    (hline : (run names line false state (part ++ ['\n'])).outcome = .ok scanned) :
    Text.contains ['/', '/'] part = true := by
  rw [← Bool.not_eq_false]
  intro hslashes
  obtain ⟨front, rfl⟩ := List.getLast?_eq_some_iff.mp hlast
  rw [List.mem_append, not_or] at hfeed
  obtain ⟨after, found, hpart, -⟩ :=
    scanPart_settled names line ['/', '\n'] false hword hslashes hfeed.1 (by decide) rfl
  rw [List.append_assoc, List.singleton_append, run_append, hpart, Bool.false_and, continueRun,
    run_cons, step_missingSemicolon (by decide)] at hline
  cases hline

/-- A line that ends with a slash and has a semicolon, which is met or not. -/
theorem unfed_of_semicolon {front back : List Char} (hlines : SameText text ['\n'] [] line other)
    (hline : (scanLine names blocks line).outcome = .ok scanned) (htext : '\n' ∉ text)
    (hslash : text.getLast? = some '/') (hparts : text = front ++ ';' :: back)
    (hfront : ';' ∉ front) :
    (scanLine names blocks line).ends ≠ 0 ∧
    (scanLine names blocks other).outcome = .error .missingCharacter ∨
      (scanLine names blocks line).ends = 0 ∧
        ∃ unfed, (scanLine names blocks other).outcome = .ok unfed ∧ Unfed scanned unfed := by
  have hcontent : line.content.toList = front ++ (';' :: back ++ ['\n']) := by
    rw [hlines.content, hparts, List.append_assoc]
  have hotherContent : other.content.toList = front ++ (';' :: back ++ []) := by
    rw [hlines.otherContent, hparts, List.append_assoc]
  have hspelled : Spelled line (front ++ (';' :: back ++ ['\n'])) { blocks } :=
    fun _ => ⟨[], by simpa using hcontent, rfl⟩
  obtain ⟨state, hpart, hotherPart⟩ | ⟨result, otherResult, hpart, hotherPart, hresults⟩ :=
    scanPart_alike names true hlines unopened_nil hspelled (List.cons_ne_nil _ _)
      fun before behind hsplit => absurd (by simp [hsplit]) hfront
  · have hback : back ≠ [] := by
      rintro rfl
      rw [hparts, List.getLast?_concat] at hslash
      exact absurd hslash (by decide)
    have hlast : back.getLast? = some '/' := by
      rwa [hparts, getLast?_append_cons hback] at hslash
    have hfeed : '\n' ∉ back := fun hmem => htext (by simp [hparts, hmem])
    rw [scanLine_of_content hcontent, hpart, continueRun, List.cons_append] at hline ⊢
    rw [scanLine_of_content hotherContent, hotherPart, continueRun, List.cons_append,
      List.append_nil]
    have hopen : endsStatement back = .error .missingCharacter := by
      rw [endsStatement, if_neg fun hhead => hfeed (List.mem_of_head? hhead), if_pos hlast]
    have hended : endsStatement (back ++ ['\n']) = .ok (Text.contains ['/', '/'] back) := by
      rw [endsStatement_append hback hfeed rfl, Text.contains_append_of_not_mem (by simp)]
    have hslashes : Text.contains ['/', '/'] back = true := by
      cases hcontains : Text.contains ['/', '/'] back with
      | true => rfl
      | false =>
          rw [hcontains] at hended
          rw [run_of_onward (onward_semicolon hended)] at hline
          exact hcontains.symm.trans
            (contains_of_settled (by simp [identify, State.push]) hlast hfeed hline)
    rw [hslashes] at hended
    refine Or.inl ⟨?_, ?_⟩
    · rw [run_of_onward (onward_ending hended)]
      have hends :=
        le_run_ends names line false (identify names { state.endStatement with word := [';'] })
        (back ++ ['\n'])
      exact Nat.ne_of_gt (Nat.lt_of_lt_of_le (Nat.succ_pos state.ends) hends)
    · have hstep : (step other front.isEmpty state ';' back).result? =
          some ⟨state.ends, .error .missingCharacter⟩ := by
        simp [step, hopen, Step.result?]
      rw [run_of_result hstep]
  · have hends := endsBehind_scanPart names line (';' :: back ++ ['\n']) true { blocks } hfront
    rw [hpart] at hends
    rw [scanLine_of_content hcontent, hpart] at hline ⊢
    rw [scanLine_of_content hotherContent, hotherPart]
    exact Or.inr ⟨hends, hresults.unfed hline⟩

/-- **The scan of a line without its line feed.**  It fails where the line ends with a slash and the
end of a statement is reached on it. -/
theorem unfed_scanLine (other : SourceLine)
    (hline : (scanLine names blocks line).outcome = .ok scanned)
    (hnumber : other.number = line.number) (hcontent : line.content.toList = text ++ ['\n'])
    (hother : other.content.toList = text) (htext : '\n' ∉ text) :
    (text.getLast? = some '/' ∧ (scanLine names blocks line).ends ≠ 0 →
        (scanLine names blocks other).outcome = .error .missingCharacter) ∧
      (¬ (text.getLast? = some '/' ∧ (scanLine names blocks line).ends ≠ 0) →
        ∃ unfed, (scanLine names blocks other).outcome = .ok unfed ∧ Unfed scanned unfed) := by
  have hlines : SameText text ['\n'] [] line other := by
    refine ⟨hnumber, hcontent, by rw [hother, List.append_nil], ?_⟩
    rw [hother, hcontent, Source.stripComment_append_feed]
  by_cases hslash : text.getLast? = some '/'
  · by_cases hsemicolon : ';' ∈ text
    · obtain ⟨front, back, hparts, hfront⟩ := List.eq_append_cons_of_mem hsemicolon
      rcases unfed_of_semicolon hlines hline htext hslash hparts hfront
        with ⟨hends, hfails⟩ | ⟨hends, hunfed⟩
      · exact ⟨fun _ => hfails, fun hnot => absurd ⟨hslash, hends⟩ hnot⟩
      · exact ⟨fun hboth => absurd hends hboth.2, fun _ => hunfed⟩
    · have hends : (scanLine names blocks line).ends = 0 :=
        scanLine_ends names blocks (by simpa [hcontent])
      refine ⟨fun hboth => absurd hends hboth.2, fun _ => unfed_of_text hlines hline ?_⟩
      rintro front back rfl -
      exact absurd (by simp) hsemicolon
  · refine ⟨fun hboth => absurd hboth.1 hslash, fun _ => unfed_of_text hlines hline ?_⟩
    rintro front back rfl hne
    have hback : '\n' ∉ back := fun hmem => htext (by simp [hmem])
    rw [getLast?_append_cons hne] at hslash
    rw [List.append_nil,
      endsStatement_of_unended (fun hhead => hback (List.mem_of_head? hhead)) hslash,
      endsStatement_append hne hback rfl, Text.contains_append_of_not_mem (by simp)]

end LineCompiler.Scan
