import LineCompiler.Proofs.Text.Slashes
import LineCompiler.Proofs.Text.Trim
import LineCompiler.Proofs.Token.Part
import LineCompiler.Proofs.Token.Renumber
import LineCompiler.Proofs.Token.Stream

/-!
# Lines without a semicolon

A line is refused for its semicolon where the scan meets a character with a line feed behind it.  So
the refusal depends on how far the scan comes: a statement word and a comment end it before the last
character is met.  `semicolon_lex` says which lines are refused, and which lines without a semicolon
are not.
-/

namespace LineCompiler

/-! ## What asks for a semicolon -/

section Readers

variable {α : Type} {result : Except Fault α} (number : Atom)

theorem Unnumbered.ne_missingSemicolon (hresult : Unnumbered result) :
    result ≠ .error (.rejected (.missingSemicolon number)) := by
  rintro rfl
  -- A fault that tells a line would change with the number of the line.
  have hzero := hresult fun _ => .integer 0
  have hone := hresult fun _ => .integer 1
  have hsame : (.error (.rejected (.missingSemicolon (.integer 0))) : Except Fault α) =
      .error (.rejected (.missingSemicolon (.integer 1))) := hzero.trans hone.symm
  exact absurd hsame (by simp)

namespace Syscall

private theorem read_ne_missingSemicolon (line : Atom) (before : List Token) (text : List Char) :
    read line before text ≠ .error (.rejected (.missingSemicolon number)) := by
  have hnumber : ∀ field,
      numberToken line field ≠ .error (.rejected (.missingSemicolon number)) := by
    intro field
    unfold numberToken
    repeat' split
    all_goals simp
  have hopens :=
    Token.unnumbered_opens (fun token => Token.unnumbered_isSame token (.keyword .syscall)) before
  refine bind_ne_error (hopens.ne_missingSemicolon number) fun opens => ?_
  split
  · refine bind_ne_error (hnumber _) fun token => ?_
    dsimp only
    split
    · rintro ⟨⟩
    · refine bind_ne_error ((unnumbered_errorTokens _).ne_missingSemicolon number) fun _ => ?_
      rintro ⟨⟩
  · rintro ⟨⟩

end Syscall

namespace Condition

private theorem elementsFrom_ne_missingSemicolon (line : Atom)
    (spelled left right text : List Char) :
    elementsFrom line spelled left right text ≠ .error (.rejected (.missingSemicolon number)) := by
  have hspelling : ∀ c rest,
      spelling line c rest ≠ .error (.rejected (.missingSemicolon number)) := by
    intro c rest
    unfold spelling
    repeat' split
    all_goals simp
  induction text generalizing spelled left right with
  | nil => simp [elementsFrom]
  | cons c rest ih =>
      rw [elementsFrom]
      split
      · exact ih spelled left right
      · split
        · -- The comparison is spelled here.
          split
          · rename_i fault hfault
            rintro ⟨⟩
            exact hspelling c rest hfault
          · split
            · simp
            · exact map_ne_error (ih _ left right)
        · split
          · exact ih spelled left right
          · dsimp only
            split
            · simp
            · exact ih _ _ _

private theorem read?_ne_missingSemicolon (line : Atom) (before : List Token)
    (content : List Char) :
    read? line before content ≠ .error (.rejected (.missingSemicolon number)) := by
  have hopens :=
    Token.unnumbered_opens (fun token => Token.unnumbered_isSame token (.keyword .cond)) before
  refine bind_ne_error (hopens.ne_missingSemicolon number) fun opens => ?_
  split
  · refine bind_ne_error (map_ne_error ?_) fun _ => ?_
    · exact elementsFrom_ne_missingSemicolon number line [] [] [] _
    · rintro ⟨⟩
  · rintro ⟨⟩

end Condition

end Readers

namespace Scan

variable {names : Names} {line : SourceLine} {first : Bool} {state after : State} {number : Atom}

theorem finish_ne_fail {elements : Except Fault (List Token)} {fault : Fault}
    (helements : elements ≠ .error fault) (declared : List Token → Names) :
    finish state elements declared ≠ .fail after fault := by
  cases elements with
  | error other =>
      intro hfail
      cases hfail
      exact helements rfl
  | ok elements => simp [finish]

private theorem recognise_ne_missingSemicolon (rest : List Char) :
    recognise line rest state ≠ .fail after (.rejected (.missingSemicolon number)) := by
  have hconst : ∀ token : Token, Unnumbered token.isConstant := fun _ _ => rfl
  have hvar : ∀ token : Token, Unnumbered token.isVariable := fun _ _ => rfl
  have hptr : ∀ token : Token, Unnumbered token.isPointer := fun token => token.unnumbered_isSame _
  unfold recognise
  cases Keyword.ofWord? state.word with
  | none => simp
  | some keyword =>
      cases keyword with
      | const =>
          exact finish_ne_fail
            ((Declaration.unnumbered_read hconst _ _ _).ne_missingSemicolon number) _
      | var =>
          exact finish_ne_fail
            ((Declaration.unnumbered_read hvar _ _ _).ne_missingSemicolon number) _
      | ptr =>
          exact finish_ne_fail
            ((Declaration.unnumbered_read hptr _ _ _).ne_missingSemicolon number) _
      | mul | add | sub | div =>
          exact finish_ne_fail ((Operation.unnumbered_read _ _).ne_missingSemicolon number) _
      | syscall => exact finish_ne_fail (Syscall.read_ne_missingSemicolon number _ _ _) _
      | cond =>
          have hread := Condition.read?_ne_missingSemicolon number line.number
            (state.push [.keyword .cond]).tokens line.content.toList
          dsimp only
          split
          · rename_i fault hfault
            rintro ⟨⟩
            exact hread hfault
          · simp
          · simp
      | alt =>
          dsimp only
          split <;> simp
      | sizeInc | sizeDec | emt | del | into | comment => simp

theorem scanMark_ne_missingSemicolon (c : Char) (rest : List Char) :
    scanMark line state c rest ≠ .fail after (.rejected (.missingSemicolon number)) := by
  unfold scanMark
  split
  · simp
  · split
    · simp
    · split
      · simp
      · exact recognise_ne_missingSemicolon rest

/-- A step asks for a semicolon where a line feed follows, at a character that is neither a space
nor a brace. -/
theorem of_step_missingSemicolon {c : Char} {rest : List Char}
    (hstep : step line first state c rest = .fail after (.rejected (.missingSemicolon number))) :
    first = false ∧ c ∉ [' ', ';', Text.openBrace] ∧ rest.head? = some '\n' ∧
    number = line.number := by
  unfold step at hstep
  split at hstep
  · cases hstep
  · rename_i hspace
    split at hstep
    · cases hstep
    · split at hstep
      · rename_i hfeed
        split at hstep
        · cases hstep
        · rename_i hbrace
          cases hstep
          simp only [Bool.and_eq_true, Bool.not_eq_true', decide_eq_true_eq] at hfeed
          exact ⟨hfeed.1.1, by simp [hspace, hfeed.1.2, hbrace], hfeed.2, rfl⟩
      · split at hstep
        · split at hstep
          · rename_i fault hends
            cases hstep
            exact absurd hends ((unnumbered_endsStatement rest).ne_missingSemicolon number)
          · exact absurd hstep (scanMark_ne_missingSemicolon c rest)
          · exact absurd hstep (scanMark_ne_missingSemicolon c rest)
        · exact absurd hstep (scanMark_ne_missingSemicolon c rest)

/-! ## Where a scan asks for a semicolon -/

/-- The scan of a line comes to a character that lacks a semicolon: the last one before a line feed,
and not the first one of the line. -/
def LacksSemicolon (names : Names) (blocks : Blocks) (line : SourceLine) : Prop :=
  ∃ part c behind, line.content.toList = part ++ c :: '\n' :: behind ∧ part ≠ [] ∧
    c ∉ [' ', ';', Text.openBrace] ∧
    ∃ after, scanPart names line (c :: '\n' :: behind) true { blocks } part = .ok after

private theorem exists_of_run_missingSemicolon {chars : List Char}
    (hrun : (run names line first state chars).outcome =
      .error (.rejected (.missingSemicolon number))) :
    number = line.number ∧ ∃ part c behind, chars = part ++ c :: '\n' :: behind ∧
      (first = true → part ≠ []) ∧ c ∉ [' ', ';', Text.openBrace] ∧
      ∃ after, scanPart names line (c :: '\n' :: behind) first state part = .ok after := by
  induction chars generalizing first state with
  | nil => cases hrun
  | cons c rest ih =>
      obtain ⟨next, hnext⟩ | ⟨result, hresult⟩ :=
        (step line first state c rest).onward_or_result names
      · rw [run_of_onward hnext] at hrun
        obtain ⟨hnumber, part, d, behind, rfl, -, hd, after, hafter⟩ := ih hrun
        refine ⟨hnumber, c :: part, d, behind, rfl, by simp, hd, after, ?_⟩
        rw [scanPart_of_onward hnext, hafter]
      · rw [run_of_result hresult] at hrun
        obtain ⟨after, hstep⟩ := Step.fail_of_result hresult hrun
        obtain ⟨rfl, hc, hfeed, hnumber⟩ := of_step_missingSemicolon hstep
        obtain ⟨behind, rfl⟩ := List.head?_eq_some_iff.mp hfeed
        exact ⟨hnumber, [], c, behind, rfl, by simp, hc, state, rfl⟩

/-- **When a line is refused for its semicolon.** -/
theorem missingSemicolon_iff (names : Names) (blocks : Blocks) (line : SourceLine) (number : Atom) :
    (scanLine names blocks line).outcome = .error (.rejected (.missingSemicolon number)) ↔
      number = line.number ∧ LacksSemicolon names blocks line := by
  constructor
  · intro hline
    obtain ⟨hnumber, part, c, behind, hcontent, hpart, hc, hafter⟩ :=
      exists_of_run_missingSemicolon hline
    exact ⟨hnumber, part, c, behind, hcontent, hpart rfl, hc, hafter⟩
  · rintro ⟨rfl, part, c, behind, hcontent, hpart, hc, after, hafter⟩
    have hempty : part.isEmpty = false := by simpa using hpart
    rw [scanLine, hcontent, run_append, hafter, hempty, Bool.and_false, continueRun, run_cons,
      step_missingSemicolon hc]
    rfl

/-! ## What ends a scan early -/

/-- The keywords of statements, which end the scan of their line. -/
def statementKeywords : List Keyword :=
  [.const, .var, .ptr, .syscall, .cond, .mul]

/-- Tokens among which is that of a statement word. -/
def Stated (tokens : List Token) : Prop :=
  ∃ keyword ∈ statementKeywords, .keyword keyword ∈ tokens

theorem stated_opener {tokens : List Token} {opener : Opener}
    (hmem : .keyword opener.keyword ∈ tokens) :
    Stated tokens := by
  refine ⟨opener.keyword, ?_, hmem⟩
  cases opener <;> decide

theorem Recognised.stated {rest : List Char} {declared : Names}
    (hstep : Recognised line rest state (.done after declared)) : Stated after.tokens := by
  cases hstep with
  | statement opener elements hword htokens helements => exact stated_opener (List.mem_cons_self ..)
  | late opener hopener htokens =>
      exact stated_opener (List.mem_append_right _ (List.mem_cons_self ..))
  | operation elements helements =>
      exact ⟨.mul, by decide,
        List.mem_append_left _ (List.mem_append_right _ (List.mem_cons_self ..))⟩

/-- A scan ends early at a comment or at a statement word. -/
theorem Move.stated {c : Char} {rest : List Char} {declared : Names}
    (hmove : Move line state c rest (.done after declared)) :
    Stated after.tokens ∨ c = '/' ∧ rest.head? = some '/' := by
  cases hmove with
  | comment text hcomment => exact Or.inr hcomment
  | word hspace hbrace hstep => exact Or.inl hstep.stated
  | ending hstep => exact Or.inl hstep.stated

private theorem stated_of_scanPart {behind part : List Char} {result : Result} {scanned : Scanned}
    (hstate : Unopened state.tokens)
    (hpart : scanPart names line behind first state part = .error result)
    (hresult : result.outcome = .ok scanned) :
    Stated scanned.tokens ∨ Text.contains ['/', '/'] (part ++ behind.take 1) = true := by
  have hcons : ∀ (c : Char) rest, (∃ front, part = front ++ c :: rest) →
      ∃ front, part = front ++ rest := by
    rintro c rest ⟨front, rfl⟩
    exact ⟨front ++ [c], by simp⟩
  obtain ⟨first', c, rest, before, hbefore, ⟨front, rfl⟩, hstep⟩ :=
    scanPart_error (motive := fun chars _ => ∃ front, part = front ++ chars) hpart hstate ⟨[], rfl⟩
      fun _ c rest _ _ _ hfront _ => hcons c rest hfront
  obtain ⟨after, declared, hmove, rfl⟩ := move_of_result hbefore hstep hresult
  refine hmove.stated.imp_right ?_
  rintro ⟨rfl, hslash⟩
  have hhead : (rest ++ behind.take 1).head? = some '/' := by
    cases rest with
    | nil => simpa [List.head?_take] using hslash
    | cons d rest => exact hslash
  obtain ⟨more, hmore⟩ := List.head?_eq_some_iff.mp hhead
  rw [List.append_assoc, List.cons_append, hmore]
  exact Text.contains_append_slashes front more

end Scan

/-! ## The code of a line -/

/-- The code of a line: what stands in front of its comment, without the spaces around it. -/
def codeOf (text : List Char) : List Char :=
  Text.trim (· = ' ') (Text.before ['/', '/'] text)

/-- A line with a comment, or with spaces at its end. -/
def Trailed (text : List Char) : Prop :=
  Text.trimEnd (· = ' ') (Text.before ['/', '/'] text) ≠ text

theorem contains_of_not_trailed {text : List Char} (htext : ¬ Trailed text) :
    Text.contains ['/', '/'] text = false := by
  rw [Trailed, Decidable.not_not] at htext
  rw [← Bool.not_eq_true]
  intro hcontains
  have hlt := Text.length_before_lt hcontains
  have hle := Text.length_trimEnd_le (· = ' ') (Text.before ['/', '/'] text)
  rw [htext] at hle
  omega

/-- The code of a line that is not trailed ends where the line ends. -/
theorem getLast?_codeOf {front : List Char} {c : Char} (htext : ¬ Trailed (front ++ [c])) :
    c ≠ ' ' ∧ (codeOf (front ++ [c])).getLast? = some c := by
  have hbefore := Text.before_eq_self (contains_of_not_trailed htext)
  have hspace : c ≠ ' ' := by
    rintro rfl
    rw [Trailed, Decidable.not_not, hbefore, Text.trimEnd_append_singleton_of (by decide)] at htext
    have hle := Text.length_trimEnd_le (· = ' ') front
    rw [htext, List.length_append, List.length_singleton] at hle
    omega
  refine ⟨hspace, ?_⟩
  rw [codeOf, hbefore]
  exact Text.getLast?_trim_append_singleton (by simpa using hspace)

/-- The tokens of a line that ends without a semicolon and is scanned without a fault. -/
theorem Scan.stated_of_scanLine {names : Names} {blocks : Blocks} {line : SourceLine}
    {scanned : Scanned} {front : List Char} {c : Char}
    (hcontent : line.content.toList = front ++ [c] ++ ['\n'])
    (hline : (scanLine names blocks line).outcome = .ok scanned) (hfront : front ≠ [])
    (hc : c ∉ [' ', ';', Text.openBrace]) (htext : ¬ Trailed (front ++ [c])) :
    Stated scanned.tokens := by
  rw [List.append_assoc, List.singleton_append] at hcontent
  cases hpart : scanPart names line [c, '\n'] true { blocks } front with
  | ok after =>
      have hlacks : LacksSemicolon names blocks line :=
        ⟨front, c, [], hcontent, hfront, hc, after, hpart⟩
      have hrefused := (missingSemicolon_iff names blocks line line.number).mpr ⟨rfl, hlacks⟩
      rw [hline] at hrefused
      cases hrefused
  | error result =>
      have hrun : scanLine names blocks line = result := by
        rw [scanLine, hcontent, run_append, hpart]
        rfl
      rw [hrun] at hline
      refine (stated_of_scanPart unopened_nil hpart hline).resolve_right ?_
      rw [Bool.not_eq_true]
      exact contains_of_not_trailed htext

/-- **Which lines need a semicolon.**  Consider a line that is scanned without a fault, with a line
feed at its end and some code that does not end with an opening brace.  Its code ends with a
semicolon, unless the line has the word of a statement or an operation, or has a comment or spaces
behind its code, or consists of one character.  A line is refused for its semicolon exactly if the
scan comes to a character in front of a line feed that is neither a space nor a semicolon nor an
opening brace, and not the first one of the line. -/
theorem semicolon_lex (names : Names) (source : List String) :
    (∀ line ∈ (lex names source).lines, ∀ text, line.line.content.toList = text ++ ['\n'] →
      codeOf text ≠ [] → (codeOf text).getLast? ≠ some Text.openBrace →
      (codeOf text).getLast? = some ';' ∨ Scan.Stated line.tokens ∨ Trailed text ∨
      text.length = 1) ∧
    ∀ blocks line number,
      (Scan.scanLine names blocks line).outcome = .error (.rejected (.missingSemicolon number)) ↔
        number = line.number ∧ Scan.LacksSemicolon names blocks line := by
  refine ⟨?_, Scan.missingSemicolon_iff names⟩
  intro line hline text hcontent hcode hbrace
  by_cases hstated : Scan.Stated line.tokens
  · exact Or.inr (Or.inl hstated)
  · by_cases hexempt : Trailed text ∨ text.length = 1
    · exact Or.inr (Or.inr hexempt)
    · rw [not_or] at hexempt
      obtain ⟨htrailed, hlength⟩ := hexempt
      rcases List.eq_nil_or_concat text with rfl | ⟨front, c, htext⟩
      · exact absurd rfl hcode
      · rw [List.concat_eq_append] at htext
        subst htext
        obtain ⟨hspace, hlast⟩ := getLast?_codeOf htrailed
        obtain ⟨lines, others, hlines⟩ := List.append_of_mem hline
        obtain ⟨last, scanned, -, hscan, htokens⟩ := Lexed.scan_split hlines
        have hfront : front ≠ [] := by
          rintro rfl
          exact hlength rfl
        rw [hlast] at hbrace ⊢
        rw [htokens] at hstated
        by_cases hc : c = ';'
        · exact Or.inl (congrArg some hc)
        · have hother : c ∉ [' ', ';', Text.openBrace] := by
            simp only [List.mem_cons, List.not_mem_nil, or_false, not_or]
            exact ⟨hspace, hc, fun heq => hbrace (congrArg some heq)⟩
          exact absurd (Scan.stated_of_scanLine hcontent hscan hfront hother htrailed) hstated

/-- A call without its semicolon is scanned without a fault, and so is a constant. -/
theorem lex_withoutSemicolon :
    (lex {} ["syscall 60, a, e\n", "const b: int = 5\n"]).fault = none ∧
      codeOf "syscall 60, a, e".toList = "syscall 60, a, e".toList ∧
      codeOf "const b: int = 5".toList = "const b: int = 5".toList := by
  decide +kernel

end LineCompiler
