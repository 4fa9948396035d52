import LineCompiler.Proofs.Token.Part
import LineCompiler.Proofs.Token.Stream

/-!
# Two endings of one text

Two lines may have the same text and end differently, one of them with a comment and the other one
without, say.  As long as the character behind the one that is met is the same, and the semicolons
end their statements on both lines or on neither, the two scans go step by step through the same
states (`scanPart_alike`).  Where one ends, so does the other.  They end with the same tokens, but
for the text of a comment and the elements of an operation, which are taken from the whole line.
-/

namespace LineCompiler.Scan

/-- Two lines with the same number, text and code, and with endings of their own. -/
structure SameText (text ending otherEnding : List Char) (line other : SourceLine) : Prop where
  number : other.number = line.number
  content : line.content.toList = text ++ ending
  otherContent : other.content.toList = text ++ otherEnding
  code : Source.stripComment other.content.toList = Source.stripComment line.content.toList

variable {text ending otherEnding : List Char} {line other : SourceLine} {names : Names}
  {first : Bool} {state : State}

/-! ## Statements -/

/-- A statement is taken from the code of its line. -/
theorem SameText.elements (hlines : SameText text ending otherEnding line other) {opener : Opener}
    {front rest : List Char} (htext : text = front ++ rest) (hfront : SpelledBy opener front) :
    opener.elements other (rest ++ otherEnding) = opener.elements line (rest ++ ending) := by
  have hcode : Source.stripComment (rest ++ otherEnding) =
      Source.stripComment (rest ++ ending) := by
    have hwhole := hlines.code
    rw [hlines.content, hlines.otherContent, htext, List.append_assoc, List.append_assoc,
      hfront.stripComment_append, hfront.stripComment_append] at hwhole
    exact List.append_cancel_left hwhole
  cases opener with
  | const | var | ptr => simp only [Opener.elements, Declaration.elements, hcode]
  | syscall => simp only [Opener.elements, Syscall.elements, hcode, hlines.number]
  | cond => simp only [Opener.elements, Condition.headElements, hlines.code, hlines.number]

/-! ## Steps -/

/-- Two steps that are the same, or end the scan with other tokens behind the first one. -/
inductive Step.Alike : Step → Step → Prop
  | same (step : Step) : Alike step step
  | ended {state : State} {more otherMore : List Token}
      (htokens : Scan.Unopened (state.tokens ++ more))
      (hother : Scan.Unopened (state.tokens ++ otherMore))
      (hhead : (state.tokens ++ otherMore).head? = (state.tokens ++ more).head?) :
      Alike (.done (state.push more) {}) (.done (state.push otherMore) {})

/-- Tokens that go on with the same one stay alike, whatever follows it. -/
theorem Step.Alike.ended_cons (hstate : Scan.Unopened state.tokens) {token : Token}
    {more otherMore : List Token} (htoken : Scan.Unopened [token]) (hmore : .blank ∉ more)
    (hother : .blank ∉ otherMore) :
    Alike (.done (state.push (token :: more)) {}) (.done (state.push (token :: otherMore)) {}) := by
  have hunopened : ∀ {tokens : List Token}, .blank ∉ tokens →
      Scan.Unopened (state.tokens ++ token :: tokens) := by
    intro tokens htokens
    rw [List.append_cons]
    exact (hstate.append htoken).append_of_ne_nil (by simp) htokens
  refine .ended (hunopened hmore) (hunopened hother) ?_
  rw [List.append_cons, List.append_cons, List.head?_append, List.head?_append]
  simp

private theorem finish_alike (hstate : Unopened state.tokens) (content otherContent : List Char) :
    Step.Alike
      (finish (state.push [.keyword .mul])
        (Operation.read (state.push [.keyword .mul]).tokens content) fun _ => {})
      (finish (state.push [.keyword .mul])
        (Operation.read (state.push [.keyword .mul]).tokens otherContent) fun _ => {}) := by
  have hblank : ∀ (opens : Bool) content, .blank ∉ if opens then Operation.elements content
      else [] := by
    intro opens content
    cases opens with
    | false => exact List.not_mem_nil
    | true => exact Token.blank_not_mem_of_all_isElement (Operation.all_isElement_elements content)
  have hmul : Unopened [.keyword .mul] := unopened_keyword rfl
  unfold Operation.read
  cases Token.opens Token.isOperation (state.push [.keyword .mul]).tokens with
  | error fault => exact .same _
  | ok opens =>
      have halike :=
        Step.Alike.ended_cons hstate hmul (hblank opens content) (hblank opens otherContent)
      simpa only [finish, Except.map, State.push, List.append_assoc, List.singleton_append]
        using halike

/-- What the word of a state is taken for, as a step on each line and with each text behind the
word. -/
inductive Recognition (state : State) : (SourceLine → List Char → Step) → Prop
  /-- The statement of a word that stands first on its line. -/
  | statement (opener : Opener) (hword : state.word = opener.spelling)
      (htokens : state.tokens = []) :
      Recognition state fun line rest =>
        finish { state with
            tokens := [.keyword opener.keyword]
            blocks := opener.blocksAfter state.blocks }
          (opener.elements line rest) opener.declares
  /-- A statement word behind other tokens. -/
  | late (opener : Opener) (htokens : state.tokens ≠ []) :
      Recognition state fun _ _ => .done (state.push [.keyword opener.keyword]) {}
  | operation :
      Recognition state fun line _ =>
        finish (state.push [.keyword .mul])
          (Operation.read (state.push [.keyword .mul]).tokens line.content.toList) fun _ => {}
  /-- The scan goes on, and the word may have been a keyword. -/
  | compared (after : State) (keywords : List Keyword)
      (htokens : after.tokens = state.tokens ++ keywords.map Token.keyword) :
      Recognition state fun _ _ => .compare after
  /-- A second block without a first one. -/
  | unpaired : Recognition state fun line _ => .fail state (.rejected (.elseWithoutIf line.number))

private theorem recognition (hstate : Unopened state.tokens) :
    ∃ form, Recognition state form ∧ ∀ line rest, recognise line rest state = form line rest := by
  have hopener : ∀ opener : Opener, Keyword.ofWord? state.word = some opener.keyword →
      ∃ form, Recognition state form ∧ ∀ line rest, recognise line rest state = form line rest := by
    intro opener hword
    cases htokens : state.tokens with
    | nil =>
        exact ⟨_, .statement opener (Opener.eq_spelling hword) htokens,
          fun line rest => recognise_first opener rest hword htokens⟩
    | cons token others =>
        cases token with
        | blank => exact absurd (by simp [htokens]) hstate.noBlank
        | of kind value =>
            have hfirst : ∀ opener : Opener, Token.of kind value ≠ .keyword opener.keyword := by
              intro other heq
              exact hstate.first other (by rw [htokens, heq]; rfl)
            by_cases hcond : opener = .cond
            · exact ⟨_, .compared _ [.cond] rfl, fun line rest =>
                (recognise_later opener rest hword hfirst htokens).trans (if_pos hcond)⟩
            · exact ⟨_, .late opener (by simp [htokens]), fun line rest =>
                (recognise_later opener rest hword hfirst htokens).trans (if_neg hcond)⟩
  have hplain : ∀ keyword : Keyword,
      (∀ line rest, recognise line rest state =
        .compare { state.push [.keyword keyword] with word := [] }) →
      ∃ form, Recognition state form ∧ ∀ line rest, recognise line rest state = form line rest :=
    fun keyword heq => ⟨_, .compared _ [keyword] rfl, heq⟩
  cases hword : Keyword.ofWord? state.word with
  | none =>
      refine ⟨_, .compared state [] (by simp), fun line rest => ?_⟩
      simp only [recognise, hword]
  | some keyword =>
      cases keyword with
      | const => exact hopener .const hword
      | var => exact hopener .var hword
      | ptr => exact hopener .ptr hword
      | syscall => exact hopener .syscall hword
      | cond => exact hopener .cond hword
      | mul | add | sub | div =>
          refine ⟨_, .operation, fun line rest => ?_⟩
          simp only [recognise, hword]
      | alt =>
          by_cases hlast : state.blocks.lastWasIf = true
          · let second : State :=
              { state.push [.keyword .alt] with word := [], blocks := ⟨false, true, false⟩ }
            refine ⟨_, .compared second [.alt] rfl, fun line rest => ?_⟩
            simp only [recognise, hword, if_pos hlast]
            rfl
          · refine ⟨_, .unpaired, fun line rest => ?_⟩
            simp only [recognise, hword, if_neg hlast]
      | sizeInc => exact hplain .sizeInc fun line rest => by simp only [recognise, hword]
      | sizeDec => exact hplain .sizeDec fun line rest => by simp only [recognise, hword]
      | emt => exact hplain .emt fun line rest => by simp only [recognise, hword]
      | del => exact hplain .del fun line rest => by simp only [recognise, hword]
      | into => exact hplain .into fun line rest => by simp only [recognise, hword]
      | comment => exact hplain .comment fun line rest => by simp only [recognise, hword]

/-- Where no token has been found, the word spells what has been read of the line and ends with
it. -/
def Spells (text rest : List Char) (state : State) : Prop :=
  state.tokens = [] → ∃ front, text = front ++ rest ∧ letters front = state.word ∧
    front.getLast? = state.word.getLast?

private theorem recognise_alike (hlines : SameText text ending otherEnding line other)
    {rest : List Char} (hstate : Unopened state.tokens) (hspells : Spells text rest state) :
    (recognise line (rest ++ ending) state).Alike
      (recognise other (rest ++ otherEnding) state) := by
  obtain ⟨form, hform, heq⟩ := recognition hstate
  rw [heq, heq]
  cases hform with
  | statement opener hword htokens =>
      obtain ⟨front, htext, hletters, hlast⟩ := hspells htokens
      rw [hword] at hletters hlast
      simp only [hlines.elements htext ⟨hletters, hlast⟩]
      exact .same _
  | operation => exact finish_alike hstate _ _
  | unpaired =>
      simp only [hlines.number]
      exact .same _
  | late | compared => exact .same _

theorem scanMark_alike (hlines : SameText text ending otherEnding line other) {c : Char}
    {rest : List Char} (hstate : Unopened state.tokens)
    (hspells : c ≠ Text.openBrace → Spells text rest { state with word := state.word ++ [c] }) :
    (scanMark line state c (rest ++ ending)).Alike
      (scanMark other state c (rest ++ otherEnding)) := by
  unfold scanMark
  split
  · exact .same _
  · rename_i hbrace
    split
    · exact .same _
    · split
      · exact .same _
      · refine recognise_alike hlines ?_ (hspells hbrace)
        exact hstate

/-- **Steps on two lines with the same text are alike.** -/
theorem step_alike (hlines : SameText text ending otherEnding line other) {c : Char}
    {rest : List Char} (hstate : Unopened state.tokens)
    (hspelled : Spelled line (c :: rest ++ ending) state)
    (hhead : (rest ++ otherEnding).head? = (rest ++ ending).head?)
    (hends : c = ';' → endsStatement (rest ++ otherEnding) = endsStatement (rest ++ ending)) :
    (step line first state c (rest ++ ending)).Alike
      (step other first state c (rest ++ otherEnding)) := by
  have hspells : c ≠ ' ' → c ≠ Text.openBrace →
      Spells text rest { state with word := state.word ++ [c] } := by
    intro hspace hbrace htokens
    obtain ⟨front, hcontent, hfront⟩ := hspelled htokens
    refine ⟨front ++ [c], ?_, ?_, ?_⟩
    · rw [hlines.content, List.cons_append, ← List.singleton_append, ← List.append_assoc,
        ← List.append_assoc] at hcontent
      exact List.append_cancel_right hcontent
    · rw [letters_append, hfront, letters_joined hspace hbrace]
    · rw [List.getLast?_concat, List.getLast?_concat]
  have hended : Unopened state.endStatement.tokens := hstate.append (unopened_other (by simp) _)
  unfold step
  rw [hhead]
  split
  · exact .same _
  · rename_i hspace
    split
    · have hmark : Unopened [.of (.mark .comment) (.text "//")] := unopened_other (by simp) _
      exact .ended_cons hstate hmark (by simp) (by simp)
    · split
      · rw [hlines.number]
        exact .same _
      · split
        · rename_i hsemicolon
          rw [hends hsemicolon]
          split
          · exact .same _
          · refine scanMark_alike hlines hended fun _ htokens => ?_
            exact absurd htokens (by simp [State.endStatement, State.push])
          · exact scanMark_alike hlines hstate (hspells hspace)
        · exact scanMark_alike hlines hstate (hspells hspace)

/-! ## Parts -/

/-- Two scans that end alike: with the same fault, or with the same blocks and names and, if the
tokens are not the same, with the same first one. -/
inductive Result.Alike : Result → Result → Prop
  | same (result : Result) : Alike result result
  | ended {tokens otherTokens : List Token} (ends : Nat) (blocks : Blocks)
      (htokens : Unopened tokens)
      (hother : Unopened otherTokens) (hhead : otherTokens.head? = tokens.head?) :
      Alike ⟨ends, .ok ⟨tokens, {}, blocks⟩⟩ ⟨ends, .ok ⟨otherTokens, {}, blocks⟩⟩

/-- What two scans that end alike share: the names, the blocks, and the tokens if there is a
statement. -/
structure Scanned.Similar (scanned other : Scanned) : Prop where
  declared : other.declared = scanned.declared
  blocks : other.blocks = scanned.blocks
  tokens : other.tokens = scanned.tokens ∨ Unopened scanned.tokens ∧ Unopened other.tokens

theorem Result.Alike.of_ok {result otherResult : Result} {scanned : Scanned}
    (hresults : result.Alike otherResult) (hresult : result.outcome = .ok scanned) :
    ∃ other, otherResult.outcome = .ok other ∧ scanned.Similar other ∧
      other.tokens.head? = scanned.tokens.head? := by
  cases hresults with
  | same => exact ⟨scanned, hresult, ⟨rfl, rfl, Or.inl rfl⟩, rfl⟩
  | ended ends blocks htokens hother hhead =>
      cases hresult
      exact ⟨_, rfl, ⟨rfl, rfl, Or.inr ⟨htokens, hother⟩⟩, hhead⟩

private theorem Step.Alike.onward {step other : Step} {next : State} (halike : step.Alike other)
    (hstep : step.onward? names = some next) : other.onward? names = some next := by
  cases halike with
  | same => exact hstep
  | ended => cases hstep

theorem Step.Alike.result {step other : Step} {result : Result} (halike : step.Alike other)
    (hstep : step.result? = some result) :
    ∃ otherResult, other.result? = some otherResult ∧ result.Alike otherResult := by
  cases halike with
  | same => exact ⟨result, hstep, .same result⟩
  | @ended state more otherMore htokens hother hhead =>
      cases hstep
      exact ⟨_, rfl, .ended state.ends state.blocks htokens hother hhead⟩

private theorem spelled_onward {c : Char} {rest : List Char} {next : State}
    (hstate : Unopened state.tokens) (hspelled : Spelled line (c :: rest) state)
    (hstep : (step line first state c rest).onward? names = some next) :
    Spelled line rest next := by
  obtain hmove | ⟨after, hmove, rfl⟩ := move_of_onward hstate hstep
  · exact spelled_next hspelled hmove
  · exact spelled_compare hspelled hmove

/-- **Parts of two lines with the same text are scanned alike.**  Some of the text is left behind
the part, and all semicolons in the part end their statements on both lines or on neither. -/
theorem scanPart_alike (names : Names) (first : Bool)
    (hlines : SameText text ending otherEnding line other) {part left : List Char}
    (hstate : Unopened state.tokens) (hspelled : Spelled line (part ++ (left ++ ending)) state)
    (hleft : left ≠ [])
    (hends : ∀ front back, part = front ++ ';' :: back →
      endsStatement (back ++ (left ++ otherEnding)) = endsStatement (back ++ (left ++ ending))) :
    (∃ after, scanPart names line (left ++ ending) first state part = .ok after ∧
        scanPart names other (left ++ otherEnding) first state part = .ok after) ∨
      ∃ result otherResult, scanPart names line (left ++ ending) first state part = .error result ∧
        scanPart names other (left ++ otherEnding) first state part = .error otherResult ∧
        result.Alike otherResult := by
  induction part generalizing first state with
  | nil => exact Or.inl ⟨state, rfl, rfl⟩
  | cons c rest ih =>
      have hhead : (rest ++ left ++ otherEnding).head? = (rest ++ left ++ ending).head? := by
        obtain ⟨d, others, hd⟩ :=
          List.exists_cons_of_ne_nil (List.append_ne_nil_of_right_ne_nil rest hleft)
        rw [hd]
        rfl
      have halike : (step line first state c (rest ++ (left ++ ending))).Alike
          (step other first state c (rest ++ (left ++ otherEnding))) := by
        rw [← List.append_assoc, ← List.append_assoc]
        refine step_alike hlines hstate (by simpa using hspelled) hhead ?_
        rintro rfl
        simpa using hends [] rest rfl
      obtain ⟨next, hnext⟩ | ⟨result, hresult⟩ :=
        (step line first state c (rest ++ (left ++ ending))).onward_or_result names
      · rw [scanPart_of_onward hnext, scanPart_of_onward (halike.onward hnext)]
        refine ih false (unopened_of_onward hstate hnext) (spelled_onward hstate hspelled hnext) ?_
        rintro front back rfl
        exact hends (c :: front) back rfl
      · obtain ⟨otherResult, hother, hresults⟩ := halike.result hresult
        exact Or.inr ⟨result, otherResult, scanPart_of_result hresult,
          scanPart_of_result hother, hresults⟩

end LineCompiler.Scan
