import LineCompiler.Token.Stream

/-!
# Lines with other numbers

A line has a number and links to its neighbours.  The scan looks at the number only to tell where it
has refused a line, and not at the links.  So if the lines of a source are given other numbers, the
scan finds the same tokens and the same names, and if it fails, it fails for the same reason
(`renumbered_scan`).
-/

namespace LineCompiler

/-! ## Numbers -/

/-- A refusal with another line number. -/
def Rejection.renumber (f : Atom → Atom) : Rejection → Rejection
  | .missingSemicolon line => .missingSemicolon (f line)
  | .elseWithoutIf line => .elseWithoutIf (f line)
  | .syscallNumber line => .syscallNumber (f line)
  | .syscallArity line => .syscallArity (f line)
  | .conditionSpacing line => .conditionSpacing (f line)
  | .comparison spelling line => .comparison spelling (f line)

/-- A fault with another line number, if it has one. -/
def Fault.renumber (f : Atom → Atom) : Fault → Fault
  | .rejected rejection => .rejected (rejection.renumber f)
  | fault => fault

/-- A line with another number and without links. -/
def SourceLine.renumber (f : Atom → Atom) (line : SourceLine) : SourceLine where
  number := f line.number
  content := line.content

/-- A token line with another number and without links. -/
def TokenLine.renumber (f : Atom → Atom) (line : TokenLine) : TokenLine where
  line := line.line.renumber f
  tokens := line.tokens

variable {f : Atom → Atom} {α β : Type}

/-- A fault has a message that does not tell the line. -/
theorem Fault.message?_renumber (f : Atom → Atom) (fault : Fault) :
    (fault.renumber f).message? = fault.message? := by
  cases fault <;> rfl

@[simp] theorem Fault.renumber_id (fault : Fault) : fault.renumber id = fault := by
  cases fault with
  | rejected rejection => cases rejection <;> rfl
  | _ => rfl

/-- A result whose fault, if it has one, tells no line. -/
def Unnumbered (result : Except Fault α) : Prop :=
  ∀ f : Atom → Atom, result.mapError (Fault.renumber f) = result

theorem mapError_ok (value : α) (f : Atom → Atom) :
    (Except.ok value : Except Fault α).mapError (Fault.renumber f) = .ok value := rfl

theorem mapError_bind (result : Except Fault α) (next : α → Except Fault β) (f : Atom → Atom) :
    (result.bind next).mapError (Fault.renumber f) =
      (result.mapError (Fault.renumber f)).bind fun value =>
        (next value).mapError (Fault.renumber f) := by
  cases result <;> rfl

theorem mapError_map (result : Except Fault α) (g : α → β) (f : Atom → Atom) :
    (result.map g).mapError (Fault.renumber f) = (result.mapError (Fault.renumber f)).map g := by
  cases result <;> rfl

theorem Unnumbered.bind {result : Except Fault α} {next : α → Except Fault β}
    (hresult : Unnumbered result) (hnext : ∀ value, Unnumbered (next value)) :
    Unnumbered (result.bind next) := by
  intro f
  rw [mapError_bind, hresult f]
  exact congrArg _ (funext fun value => hnext value f)

theorem Unnumbered.map {result : Except Fault α} (hresult : Unnumbered result) (g : α → β) :
    Unnumbered (result.map g) := by
  intro f
  rw [mapError_map, hresult f]

/-! ## The readers of statements -/

namespace Token

theorem unnumbered_entry (token : Token) : Unnumbered token.entry := by
  intro f
  cases token <;> rfl

theorem unnumbered_isSame (token expected : Token) : Unnumbered (token.isSame expected) :=
  token.unnumbered_entry.map _

theorem unnumbered_opens {test : Token → Except Fault Bool}
    (htest : ∀ token, Unnumbered (test token)) (tokens : List Token) :
    Unnumbered (opens test tokens) := by
  refine Unnumbered.bind ?_ htest
  intro f
  unfold tokenAt
  split <;> rfl

end Token

theorem Declaration.unnumbered_read {test : Token → Except Fault Bool}
    (htest : ∀ token, Unnumbered (test token)) (form : Form) (before : List Token)
    (text : List Char) :
    Unnumbered (read form test before text) :=
  (Token.unnumbered_opens htest before).map _

theorem Operation.unnumbered_read (before : List Token) (line : List Char) :
    Unnumbered (read before line) :=
  (Token.unnumbered_opens (fun token => token.unnumbered_entry.map _) before).map _

namespace Syscall

theorem unnumbered_errorTokens (field : List Char) : Unnumbered (errorTokens field) := by
  intro f
  simp only [errorTokens]
  split
  · rfl
  · split <;> rfl

private theorem numberToken_renumber (line : Atom) (field : List Char) :
    numberToken (f line) field = (numberToken line field).mapError (Fault.renumber f) := by
  unfold numberToken
  split
  · rfl
  · split <;> rfl

private theorem elements_renumber (line : Atom) (text : List Char) :
    elements (f line) text = (elements line text).mapError (Fault.renumber f) := by
  simp only [elements, numberToken_renumber, bind]
  rw [mapError_bind]
  refine congrArg _ (funext fun number => ?_)
  split
  · rfl
  · exact (((unnumbered_errorTokens _).bind fun _ _ => rfl) f).symm

private theorem read_renumber (line : Atom) (before : List Token) (text : List Char) :
    read (f line) before text = (read line before text).mapError (Fault.renumber f) := by
  have hopens : Unnumbered (Token.opens Token.isSyscall before) :=
    Token.unnumbered_opens (fun token => token.unnumbered_isSame _) before
  simp only [read, bind]
  rw [mapError_bind, hopens f]
  refine congrArg _ (funext fun opens => ?_)
  split
  · exact elements_renumber line text
  · rfl

end Syscall

namespace Condition

private theorem spelling_renumber (line : Atom) (c : Char) (rest : List Char) :
    spelling (f line) c rest = (spelling line c rest).mapError (Fault.renumber f) := by
  unfold spelling
  split
  · rfl
  · split
    · rfl
    · split <;> rfl

private theorem elementsFrom_renumber (line : Atom) (spelled left right text : List Char) :
    elementsFrom (f line) spelled left right text =
      (elementsFrom line spelled left right text).mapError (Fault.renumber f) := by
  induction text generalizing spelled left right with
  | nil => rfl
  | cons c rest ih =>
      simp only [elementsFrom, spelling_renumber]
      split
      · exact ih ..
      split
      · cases spelling line c rest with
        | error fault => rfl
        | ok spelled =>
            simp only [mapError_ok]
            split
            · rfl
            · rw [ih, mapError_map]
      split
      · exact ih ..
      split
      · rfl
      · exact ih ..

private theorem read?_renumber (line : Atom) (before : List Token) (content : List Char) :
    read? (f line) before content = (read? line before content).mapError (Fault.renumber f) := by
  have hopens : Unnumbered (Token.opens Token.isConditional before) :=
    Token.unnumbered_opens (fun token => token.unnumbered_isSame _) before
  simp only [read?, bind]
  rw [mapError_bind, hopens f]
  refine congrArg _ (funext fun opens => ?_)
  split
  · simp only [headElements, elements, elementsFrom_renumber]
    rw [mapError_bind, mapError_map]
    rfl
  · rfl

end Condition

/-! ## The scan of a line -/

namespace Scan

/-- A step with another line number. -/
def Step.renumber (f : Atom → Atom) : Step → Step
  | .fail state fault => .fail state (fault.renumber f)
  | step => step

/-- A result with another line number. -/
def Result.renumber (f : Atom → Atom) (result : Result) : Result where
  ends := result.ends
  outcome := result.outcome.mapError (Fault.renumber f)

theorem finish_mapError (state : State) (elements : Except Fault (List Token))
    (declared : List Token → Names) :
    finish state (elements.mapError (Fault.renumber f)) declared =
      (finish state elements declared).renumber f := by
  cases elements <;> rfl

theorem finish_of_unnumbered {elements : Except Fault (List Token)}
    (helements : Unnumbered elements) (state : State) (declared : List Token → Names) :
    finish state elements declared = (finish state elements declared).renumber f := by
  rw [← finish_mapError, helements f]

private theorem recognise_renumber (line : SourceLine) (rest : List Char) (state : State) :
    recognise (line.renumber f) rest state = (recognise line rest state).renumber f := by
  have hconst : ∀ token : Token, Unnumbered token.isConstant := fun _ _ => rfl
  have hvar : ∀ token : Token, Unnumbered token.isVariable := fun _ _ => rfl
  have hptr : ∀ token : Token, Unnumbered token.isPointer := fun token => token.unnumbered_isSame _
  unfold recognise
  cases Keyword.ofWord? state.word with
  | none => rfl
  | some keyword =>
      cases keyword with
      | const => exact finish_of_unnumbered (Declaration.unnumbered_read hconst _ _ _) _ _
      | var => exact finish_of_unnumbered (Declaration.unnumbered_read hvar _ _ _) _ _
      | ptr => exact finish_of_unnumbered (Declaration.unnumbered_read hptr _ _ _) _ _
      | mul | add | sub | div => exact finish_of_unnumbered (Operation.unnumbered_read _ _) _ _
      | syscall =>
          rw [← finish_mapError, ← Syscall.read_renumber]
          rfl
      | cond =>
          simp only [SourceLine.renumber, Condition.read?_renumber]
          cases Condition.read? line.number
            (state.push [.keyword .cond]).tokens line.content.toList with
          | error fault => rfl
          | ok elements? => cases elements? <;> rfl
      | alt =>
          simp only
          split <;> rfl
      | _ => rfl

theorem scanMark_renumber (line : SourceLine) (state : State) (c : Char) (rest : List Char) :
    scanMark (line.renumber f) state c rest = (scanMark line state c rest).renumber f := by
  unfold scanMark
  split
  · rfl
  split
  · rfl
  split
  · rfl
  · exact recognise_renumber line rest _

theorem unnumbered_endsStatement (rest : List Char) : Unnumbered (endsStatement rest) := by
  intro f
  unfold endsStatement
  split
  · rfl
  · split <;> rfl

private theorem step_renumber (line : SourceLine) (first : Bool) (state : State) (c : Char)
    (rest : List Char) :
    step (line.renumber f) first state c rest = (step line first state c rest).renumber f := by
  unfold step
  split
  · rfl
  split
  · rfl
  split
  · split <;> rfl
  split
  · cases hends : endsStatement rest with
    | error fault =>
        have hfault := unnumbered_endsStatement rest f
        rw [hends] at hfault
        exact congrArg (Step.fail state) (Except.error.inj hfault).symm
    | ok ends => cases ends <;> exact scanMark_renumber line _ c rest
  · exact scanMark_renumber line state c rest

private theorem run_renumber (names : Names) (line : SourceLine) (first : Bool) (state : State)
    (text : List Char) :
    run names (line.renumber f) first state text =
      (run names line first state text).renumber f := by
  induction text generalizing first state with
  | nil => rfl
  | cons c rest ih =>
      rw [run, run, step_renumber]
      cases step line first state c rest with
      | next state => exact ih ..
      | compare state => exact ih ..
      | done state declared => rfl
      | fail state fault => rfl

/-- **A line with another number is scanned alike.** -/
theorem scanLine_renumber (names : Names) (blocks : Blocks) (line : SourceLine) :
    scanLine names blocks (line.renumber f) = (scanLine names blocks line).renumber f :=
  run_renumber names line true { blocks } line.content.toList

/-- Lines that differ in their numbers and links only are scanned alike. -/
theorem outcome_scanLine_of_renumber {line other : SourceLine}
    (hother : other.renumber id = line.renumber f) (names : Names) (blocks : Blocks) :
    (scanLine names blocks other).outcome =
      (scanLine names blocks line).outcome.mapError (Fault.renumber f) := by
  have hline : scanLine names blocks (line.renumber f) = _ := scanLine_renumber names blocks line
  rw [← hother, scanLine_renumber] at hline
  have houtcome := congrArg Result.outcome hline
  simp only [Result.renumber] at houtcome
  rw [← houtcome]
  cases (scanLine names blocks other).outcome with
  | error fault => exact congrArg Except.error fault.renumber_id.symm
  | ok scanned => rfl

end Scan

/-! ## The scan of a source -/

namespace Lexed

/-- Two scans that differ in the numbers and links of lines only, and in their logs. -/
structure Renumbered (f : Atom → Atom) (before after : Lexed) : Prop where
  lines : after.lines.map (TokenLine.renumber id) = before.lines.map (TokenLine.renumber f)
  names : after.names = before.names
  fault : after.fault = before.fault.map (Fault.renumber f)

section Cons

variable {names : Names} {blocks : Blocks} {line : SourceLine}

theorem scan_cons_error {fault : Fault}
    (hline : (Scan.scanLine names blocks line).outcome = .error fault) (rest : List SourceLine) :
    scan names blocks (line :: rest) =
      { names, fault := some fault,
        notices :=
          List.replicate (Scan.scanLine names blocks line).ends (endNotice line.number) } := by
  rw [scan, hline]

theorem scan_cons_ok {scanned : Scan.Scanned}
    (hline : (Scan.scanLine names blocks line).outcome = .ok scanned) (rest : List SourceLine) :
    scan names blocks (line :: rest) =
      let after := scan (names.append scanned.declared) scanned.blocks rest
      { after with
        lines := ⟨line, scanned.tokens⟩ :: after.lines
        notices := List.replicate (Scan.scanLine names blocks line).ends (endNotice line.number) ++
          after.notices } := by
  rw [scan, hline]

end Cons

/-- **A source with other line numbers is scanned alike.** -/
theorem renumbered_scan {lines others : List SourceLine}
    (hothers : others.map (SourceLine.renumber id) = lines.map (SourceLine.renumber f))
    (names : Names) (blocks : Blocks) :
    Renumbered f (scan names blocks lines) (scan names blocks others) := by
  induction lines generalizing others names blocks with
  | nil =>
      rw [List.map_eq_nil_iff.mp hothers]
      exact ⟨rfl, rfl, rfl⟩
  | cons line rest ih =>
      obtain ⟨other, otherRest, rfl, hother, hrest⟩ := List.map_eq_cons_iff.mp hothers
      have houtcome := Scan.outcome_scanLine_of_renumber hother names blocks
      cases hline : (Scan.scanLine names blocks line).outcome with
      | error fault =>
          rw [hline] at houtcome
          rw [scan_cons_error hline, scan_cons_error houtcome]
          exact ⟨rfl, rfl, rfl⟩
      | ok scanned =>
          rw [hline] at houtcome
          obtain ⟨hlines, hnames, hfault⟩ := ih hrest (names.append scanned.declared) scanned.blocks
          rw [scan_cons_ok hline, scan_cons_ok houtcome]
          refine ⟨?_, hnames, hfault⟩
          simp only [List.map_cons, hlines, TokenLine.renumber, hother]

end Lexed

end LineCompiler
