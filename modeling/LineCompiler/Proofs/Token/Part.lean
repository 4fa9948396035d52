import LineCompiler.Proofs.Token.Step

/-!
# Parts of a line

The scan of a line can be cut anywhere (`run_append`): it goes through the part in front of the cut
and comes to a state from which it scans what is behind the cut, or it ends within the part.  The
part is scanned with the characters behind it in sight, since a step looks at the character that
follows and a semicolon at the rest of its line.

What every step keeps holds of the state behind a part (`scanPart_ok`), and of the state at which a
scan ends within it (`scanPart_error`).
-/

namespace LineCompiler.Scan

variable {names : Names} {line : SourceLine} {first : Bool} {state after next : State}
  {part behind : List Char} {result : Result}

/-! ## Steps that go on and steps that end the scan -/

/-- The state from which a scan goes on after a step. -/
def Step.onward? (names : Names) : Step → Option State
  | .next state => some state
  | .compare state => some (identify names state)
  | .done _ _ | .fail _ _ => none

/-- What a scan comes to if it ends with a step. -/
def Step.result? : Step → Option Result
  | .next _ | .compare _ => none
  | .done state declared => some ⟨state.ends, .ok ⟨state.tokens, declared, state.blocks⟩⟩
  | .fail state fault => some ⟨state.ends, .error fault⟩

theorem run_of_onward {c : Char} {rest : List Char}
    (hstep : (step line first state c rest).onward? names = some next) :
    run names line first state (c :: rest) = run names line false next rest := by
  rw [run_cons]
  cases hresult : step line first state c rest with
  | next after | compare after =>
      rw [hresult] at hstep
      cases hstep
      rfl
  | done after declared | fail after fault =>
      rw [hresult] at hstep
      cases hstep

theorem run_of_result {c : Char} {rest : List Char}
    (hstep : (step line first state c rest).result? = some result) :
    run names line first state (c :: rest) = result := by
  rw [run_cons]
  cases hresult : step line first state c rest with
  | next after | compare after =>
      rw [hresult] at hstep
      cases hstep
  | done after declared | fail after fault =>
      rw [hresult] at hstep
      cases hstep
      rfl

theorem Step.onward_or_result (names : Names) (step : Step) :
    (∃ next, step.onward? names = some next) ∨ ∃ result, step.result? = some result := by
  cases step with
  | next state | compare state => exact Or.inl ⟨_, rfl⟩
  | done state declared | fail state fault => exact Or.inr ⟨_, rfl⟩

theorem Step.fail_of_result {step : Step} {fault : Fault} (hstep : step.result? = some result)
    (hresult : result.outcome = .error fault) : ∃ after, step = .fail after fault := by
  cases step with
  | next state | compare state => cases hstep
  | done state declared =>
      cases hstep
      cases hresult
  | fail state fault =>
      cases hstep
      cases hresult
      exact ⟨state, rfl⟩

/-- The move after which a scan goes on. -/
theorem move_of_onward {c : Char} {rest : List Char} (hstate : Unopened state.tokens)
    (hstep : (step line first state c rest).onward? names = some next) :
    Move line state c rest (.next next) ∨
      ∃ after, Move line state c rest (.compare after) ∧ next = identify names after := by
  have hmove : Move line state c rest (step line first state c rest) := move_step hstate c rest
  cases hresult : step line first state c rest with
  | next after =>
      rw [hresult] at hstep hmove
      cases hstep
      exact Or.inl hmove
  | compare after =>
      rw [hresult] at hstep hmove
      cases hstep
      exact Or.inr ⟨after, hmove, rfl⟩
  | done after declared | fail after fault =>
      rw [hresult] at hstep
      cases hstep

/-- The move with which a scan is done. -/
theorem move_of_result {c : Char} {rest : List Char} {scanned : Scanned}
    (hstate : Unopened state.tokens) (hstep : (step line first state c rest).result? = some result)
    (hresult : result.outcome = .ok scanned) :
    ∃ after declared, Move line state c rest (.done after declared) ∧
      scanned = ⟨after.tokens, declared, after.blocks⟩ := by
  have hmove : Move line state c rest (step line first state c rest) := move_step hstate c rest
  cases hended : step line first state c rest with
  | next after | compare after =>
      rw [hended] at hstep
      cases hstep
  | done after declared =>
      rw [hended] at hstep hmove
      cases hstep
      cases hresult
      exact ⟨after, declared, hmove, rfl⟩
  | fail after fault =>
      rw [hended] at hstep
      cases hstep
      cases hresult

theorem unopened_of_onward {c : Char} {rest : List Char} (hstate : Unopened state.tokens)
    (hstep : (step line first state c rest).onward? names = some next) : Unopened next.tokens := by
  obtain hmove | ⟨after, hmove, rfl⟩ := move_of_onward hstate hstep
  · exact hmove.unopened hstate
  · exact Unopened.append (hmove.unopened hstate) (unopened_nameTokens names after.word)

/-- A character that is neither a space nor a brace asks for a semicolon where a line feed
follows. -/
theorem step_missingSemicolon {c : Char} (hc : c ∉ [' ', ';', Text.openBrace])
    (behind : List Char) :
    step line false state c ('\n' :: behind) =
      .fail state (.rejected (.missingSemicolon line.number)) := by
  simp only [List.mem_cons, List.not_mem_nil, or_false, not_or] at hc
  simp [step, hc.1, hc.2.1, hc.2.2]

/-! ## Cutting a scan -/

/-- Scans a part of a line, which `behind` follows: the state behind the part or, if the scan ends
within it, what it comes to. -/
def scanPart (names : Names) (line : SourceLine) (behind : List Char) (first : Bool)
    (state : State) :
    List Char → Except Result State
  | [] => .ok state
  | c :: rest =>
      match step line first state c (rest ++ behind) with
      | .next state => scanPart names line behind false state rest
      | .compare state => scanPart names line behind false (identify names state) rest
      | .done state declared => .error ⟨state.ends, .ok ⟨state.tokens, declared, state.blocks⟩⟩
      | .fail state fault => .error ⟨state.ends, .error fault⟩

theorem scanPart_of_onward {c : Char} {rest : List Char}
    (hstep : (step line first state c (rest ++ behind)).onward? names = some next) :
    scanPart names line behind first state (c :: rest) =
      scanPart names line behind false next rest := by
  rw [scanPart]
  cases hresult : step line first state c (rest ++ behind) with
  | next after | compare after =>
      rw [hresult] at hstep
      cases hstep
      rfl
  | done after declared | fail after fault =>
      rw [hresult] at hstep
      cases hstep

theorem scanPart_of_result {c : Char} {rest : List Char}
    (hstep : (step line first state c (rest ++ behind)).result? = some result) :
    scanPart names line behind first state (c :: rest) = .error result := by
  rw [scanPart]
  cases hresult : step line first state c (rest ++ behind) with
  | next after | compare after =>
      rw [hresult] at hstep
      cases hstep
  | done after declared | fail after fault =>
      rw [hresult] at hstep
      cases hstep
      rfl

/-- How a line is scanned on behind a part of it. -/
def continueRun (names : Names) (line : SourceLine) (first : Bool) (behind : List Char) :
    Except Result State → Result
  | .ok state => run names line first state behind
  | .error result => result

/-- **The scan of a line can be cut.** -/
theorem run_append (names : Names) (line : SourceLine) (behind : List Char) (first : Bool)
    (state : State) (part : List Char) :
    run names line first state (part ++ behind) =
      continueRun names line (first && part.isEmpty) behind
        (scanPart names line behind first state part) := by
  induction part generalizing first state with
  | nil => simp [scanPart, continueRun]
  | cons c rest ih =>
      rw [List.cons_append, List.isEmpty_cons, Bool.and_false]
      obtain ⟨next, hnext⟩ | ⟨result, hresult⟩ :=
        (step line first state c (rest ++ behind)).onward_or_result names
      · rw [run_of_onward hnext, scanPart_of_onward hnext, ih, Bool.false_and]
      · rw [run_of_result hresult, scanPart_of_result hresult, continueRun]

theorem scanLine_of_content (hcontent : line.content.toList = part ++ behind) (names : Names)
    (blocks : Blocks) :
    scanLine names blocks line =
      continueRun names line part.isEmpty behind
        (scanPart names line behind true { blocks } part) := by
  rw [scanLine, hcontent, run_append, Bool.true_and]

/-- A part is scanned up to its last character, and then that one. -/
theorem scanPart_concat (names : Names) (line : SourceLine) (behind : List Char) (first : Bool)
    (state : State) (part : List Char) (c : Char) :
    scanPart names line behind first state (part ++ [c]) =
      (scanPart names line (c :: behind) first state part).bind fun after =>
        scanPart names line behind (first && part.isEmpty) after [c] := by
  induction part generalizing first state with
  | nil => simp [scanPart, Except.bind]
  | cons d rest ih =>
      rw [List.cons_append, List.isEmpty_cons, Bool.and_false]
      have hbehind : rest ++ [c] ++ behind = rest ++ c :: behind := by simp
      obtain ⟨next, hnext⟩ | ⟨result, hresult⟩ :=
        (step line first state d (rest ++ c :: behind)).onward_or_result names
      · rw [scanPart_of_onward hnext, scanPart_of_onward (hbehind ▸ hnext), ih, Bool.false_and]
      · rw [scanPart_of_result hresult, scanPart_of_result (hbehind ▸ hresult)]
        rfl

/-! ## Induction over a part -/

section Induction

variable {motive : List Char → State → Prop}

/-- What every step keeps holds behind a part. -/
theorem scanPart_ok (hpart : scanPart names line behind first state part = .ok after)
    (hunopened : Unopened state.tokens) (hstart : motive part state)
    (hstep : ∀ first c rest before next, Unopened before.tokens → motive (c :: rest) before →
      (step line first before c (rest ++ behind)).onward? names = some next → motive rest next) :
    Unopened after.tokens ∧ motive [] after := by
  induction part generalizing first state with
  | nil =>
      cases hpart
      exact ⟨hunopened, hstart⟩
  | cons c rest ih =>
      obtain ⟨next, hnext⟩ | ⟨result, hresult⟩ :=
        (step line first state c (rest ++ behind)).onward_or_result names
      · rw [scanPart_of_onward hnext] at hpart
        exact ih hpart (unopened_of_onward hunopened hnext)
          (hstep first c rest state next hunopened hstart hnext)
      · rw [scanPart_of_result hresult] at hpart
        cases hpart

theorem unopened_of_scanPart (hpart : scanPart names line behind first state part = .ok after)
    (hunopened : Unopened state.tokens) : Unopened after.tokens :=
  (scanPart_ok (motive := fun _ _ => True) hpart hunopened trivial fun _ _ _ _ _ _ _ _ => trivial).1

/-- What every step keeps holds where a scan ends within a part. -/
theorem scanPart_error (hpart : scanPart names line behind first state part = .error result)
    (hunopened : Unopened state.tokens) (hstart : motive part state)
    (hstep : ∀ first c rest before next, Unopened before.tokens → motive (c :: rest) before →
      (step line first before c (rest ++ behind)).onward? names = some next → motive rest next) :
    ∃ first c rest before, Unopened before.tokens ∧ motive (c :: rest) before ∧
      (step line first before c (rest ++ behind)).result? = some result := by
  induction part generalizing first state with
  | nil => cases hpart
  | cons c rest ih =>
      obtain ⟨next, hnext⟩ | ⟨ended, hended⟩ :=
        (step line first state c (rest ++ behind)).onward_or_result names
      · rw [scanPart_of_onward hnext] at hpart
        exact ih hpart (unopened_of_onward hunopened hnext)
          (hstep first c rest state next hunopened hstart hnext)
      · rw [scanPart_of_result hended] at hpart
        cases hpart
        exact ⟨first, c, rest, state, hunopened, hstart, hended⟩

end Induction

end LineCompiler.Scan
