import LineCompiler.Proofs.Token.Plain

/-!
# What declared names do to a line

The scan of a line consults the declared names at certain words only (`compared`).  Two collections
of names that agree on these words scan the line alike, since a comparison with the names does
nothing but add their tokens.  The converse holds for lines that are scanned without a fault: tokens
are only ever added, and those of declared names come from comparisons alone, so the first word on
which the collections differ leaves a token on one side that is missing on the other
(`outcome_scanLine_eq_iff`).

On a line that opens with a statement word, the words are the proper beginnings of that word: a
constant with the name `c` is enough to turn every later `const` off.
-/

namespace LineCompiler

/-- Two collections of names hold a name in the same lists. -/
def Names.Agree (first second : Names) (name : String) : Prop :=
  (name ∈ first.constants ↔ name ∈ second.constants) ∧
    (name ∈ first.vars ↔ name ∈ second.vars) ∧
    (name ∈ first.pointers ↔ name ∈ second.pointers) ∧
    (name ∈ first.functions ↔ name ∈ second.functions)

namespace Scan

/-! ## The tokens of declared names -/

section NameTokens

variable {names first second : Names} {word other : List Char} {token : Token}

theorem mem_nameTokens :
    token ∈ nameTokens names word ↔
      (String.ofList word ∈ names.constants ∧
          token = .of .constantName (.text (String.ofList word))) ∨
        (String.ofList word ∈ names.vars ∧
          token = .of .variableName (.text (String.ofList word))) ∨
        (String.ofList word ∈ names.pointers ∧
          token = .of .pointerName (.text (String.ofList word))) ∨
        (String.ofList word ∈ names.functions ∧
          token = .of .functionName (.text (String.ofList word))) := by
  have hpiece : ∀ (list : List String) (kind : TokenKind),
      token ∈ (if list.contains (String.ofList word) then
          [Token.of kind (.text (String.ofList word))] else []) ↔
        String.ofList word ∈ list ∧ token = .of kind (.text (String.ofList word)) := by
    intro list kind
    split
    · simp_all
    · simp_all
  simp only [nameTokens, List.mem_append, hpiece, or_assoc]

theorem agree_of_mem_nameTokens_iff
    (hmem : ∀ token, token ∈ nameTokens first word ↔ token ∈ nameTokens second word) :
    first.Agree second (String.ofList word) := by
  -- Each list holds the word exactly if the token of its kind is there.
  refine ⟨?_, ?_, ?_, ?_⟩
  · simpa [mem_nameTokens] using hmem (.of .constantName (.text (String.ofList word)))
  · simpa [mem_nameTokens] using hmem (.of .variableName (.text (String.ofList word)))
  · simpa [mem_nameTokens] using hmem (.of .pointerName (.text (String.ofList word)))
  · simpa [mem_nameTokens] using hmem (.of .functionName (.text (String.ofList word)))

theorem nameTokens_eq_iff :
    nameTokens first word = nameTokens second word ↔ first.Agree second (String.ofList word) := by
  constructor
  · intro hsame
    exact agree_of_mem_nameTokens_iff fun token => by rw [hsame]
  · rintro ⟨hconstants, hvars, hpointers, hfunctions⟩
    simp [nameTokens, hconstants, hvars, hpointers, hfunctions]

theorem exists_of_mem_nameTokens (htoken : token ∈ nameTokens names word) :
    ∃ kind : TokenKind, kind.isName ∧ token = .of kind (.text (String.ofList word)) := by
  rcases mem_nameTokens.mp htoken with ⟨-, rfl⟩ | ⟨-, rfl⟩ | ⟨-, rfl⟩ | ⟨-, rfl⟩ <;>
    exact ⟨_, rfl, rfl⟩

/-- The token of a declared name tells the word. -/
theorem mem_nameTokens_of_mem (hfirst : token ∈ nameTokens first word)
    (hsecond : token ∈ nameTokens second other) : token ∈ nameTokens second word := by
  obtain ⟨kind, -, rfl⟩ := exists_of_mem_nameTokens hfirst
  obtain ⟨_, -, htoken⟩ := exists_of_mem_nameTokens hsecond
  injection htoken with _ hvalue
  injection hvalue with hword
  rw [mem_nameTokens, ← hword] at hsecond
  exact mem_nameTokens.mpr hsecond

end NameTokens

/-! ## The tokens that a scan adds -/

/-- The state that a step leaves. -/
def Step.state : Step → State
  | .next state | .compare state | .done state _ | .fail state _ => state

/-- A step adds plain tokens to those before it. -/
def Adds (tokens : List Token) (step : Step) : Prop :=
  ∃ more, more.all Token.isPlain ∧ step.state.tokens = tokens ++ more

variable {names first second : Names} {line : SourceLine} {opening : Bool} {state : State}
  {chars : List Char}

theorem adds_finish {keyword : Keyword} {elements : Except Fault (List Token)}
    {declared : List Token → Names}
    (helements : ∀ found, elements = .ok found → found.all Token.isPlain) :
    Adds state.tokens (finish (state.push [.keyword keyword]) elements declared) := by
  cases elements with
  | error fault => exact ⟨[.keyword keyword], rfl, rfl⟩
  | ok found =>
      refine ⟨.keyword keyword :: found, ?_, ?_⟩
      · rw [List.all_cons, helements found rfl]
        rfl
      · exact List.append_assoc ..

private theorem all_isPlain_of_read {form : Declaration.Form} {test : Token → Except Fault Bool}
    {before found : List Token} {rest : List Char}
    (hread : Declaration.read form test before rest = .ok found) : found.all Token.isPlain := by
  obtain ⟨opens, -, rfl⟩ := exists_of_map_eq_ok hread
  split
  · exact Token.all_isPlain_of_all_isElement (Declaration.all_isElement_elementsFrom rfl _ _)
  · rfl

private theorem adds_recognise (line : SourceLine) (rest : List Char) (state : State) :
    Adds state.tokens (recognise line rest state) := by
  have hnothing : Adds state.tokens (.compare state) := ⟨[], rfl, (List.append_nil _).symm⟩
  have hkeyword : ∀ keyword blocks, Adds state.tokens
      (.compare { state.push [.keyword keyword] with word := [], blocks := blocks }) :=
    fun keyword _ => ⟨[.keyword keyword], rfl, rfl⟩
  have hoperation : Adds state.tokens (finish (state.push [.keyword .mul])
      (Operation.read (state.push [.keyword .mul]).tokens line.content.toList) fun _ => {}) := by
    refine adds_finish fun found hread => ?_
    obtain ⟨opens, -, rfl⟩ := exists_of_map_eq_ok hread
    split
    · exact Token.all_isPlain_of_all_isElement (Operation.all_isElement_elements _)
    · rfl
  cases hword : Keyword.ofWord? state.word with
  | none => simpa only [recognise, hword] using hnothing
  | some keyword =>
      simp only [recognise, hword]
      cases keyword with
      | const | var | ptr => exact adds_finish fun _ => all_isPlain_of_read
      | syscall =>
          refine adds_finish fun found hread => ?_
          obtain ⟨opens, -, hread⟩ := exists_of_bind_eq_ok hread
          split at hread
          · exact Token.all_isPlain_of_all_isElement (Syscall.all_isElement_elements hread)
          · cases hread
            rfl
      | cond =>
          dsimp only
          split
          · exact ⟨[.keyword .cond], rfl, rfl⟩
          · rename_i found hread
            obtain ⟨opens, -, hread⟩ := exists_of_bind_eq_ok hread
            split at hread
            · obtain ⟨elements, helements, hread⟩ := exists_of_bind_eq_ok hread
              cases hread
              refine ⟨.keyword .cond :: found, ?_, List.append_assoc ..⟩
              rw [List.all_cons,
                Token.all_isPlain_of_all_isElement (Condition.all_isElement_headElements helements)]
              rfl
            · cases hread
          · exact ⟨[.keyword .cond], rfl, rfl⟩
      | alt =>
          dsimp only
          split
          · exact hkeyword .alt _
          · exact hnothing
      | mul | add | sub | div => exact hoperation
      | sizeInc | sizeDec | emt | del | into | comment => exact hkeyword _ _

theorem Adds.after {tokens : List Token} {step : Step} (plain : List Token)
    (hplain : plain.all Token.isPlain) (hstep : Adds (tokens ++ plain) step) :
    Adds tokens step := by
  obtain ⟨more, hmore, htokens⟩ := hstep
  refine ⟨plain ++ more, ?_, ?_⟩
  · rw [List.all_append, hplain, hmore]
    rfl
  · rw [htokens, List.append_assoc]

theorem adds_scanMark (line : SourceLine) (state : State) (c : Char) (rest : List Char) :
    Adds state.tokens (scanMark line state c rest) := by
  unfold scanMark
  split
  · exact ⟨[.symbol .openBrace], rfl, rfl⟩
  · split
    · exact ⟨[.symbol .closeBrace], rfl, rfl⟩
    · split
      · exact ⟨[.symbol .closeBrace], rfl, rfl⟩
      · exact adds_recognise line rest { state with word := state.word ++ [c] }

private theorem adds_step (line : SourceLine) (opening : Bool) (state : State) (c : Char)
    (rest : List Char) : Adds state.tokens (step line opening state c rest) := by
  have hnext : Adds state.tokens (.next state) := ⟨[], rfl, (List.append_nil _).symm⟩
  have hfail : ∀ fault, Adds state.tokens (.fail state fault) := fun _ => hnext
  unfold step
  split
  · exact hnext
  · split
    · exact ⟨_, rfl, rfl⟩
    · split
      · split
        · exact hnext
        · exact hfail _
      · split
        · split
          · exact hfail _
          · exact Adds.after [.of .symbol (.text ";")] rfl
              (adds_scanMark line state.endStatement c rest)
          · exact adds_scanMark line state c rest
        · exact adds_scanMark line state c rest

/-- **A scan only adds tokens**, and they are plain or those of declared names. -/
theorem exists_tokens_of_run {scanned : Scanned}
    (hrun : (run names line opening state chars).outcome = .ok scanned) :
    ∃ more, scanned.tokens = state.tokens ++ more ∧
      ∀ token ∈ more, token.isPlain ∨ ∃ word, token ∈ nameTokens names word := by
  induction chars generalizing opening state with
  | nil =>
      cases hrun
      exact ⟨[], (List.append_nil _).symm, by simp⟩
  | cons c rest ih =>
      obtain ⟨plain, hplain, htokens⟩ := adds_step line opening state c rest
      have hstep : ∀ token ∈ plain, token.isPlain ∨ ∃ word, token ∈ nameTokens names word :=
        fun token htoken => Or.inl (List.all_eq_true.mp hplain token htoken)
      rw [run_cons] at hrun
      cases hresult : step line opening state c rest with
      | next after =>
          rw [hresult] at hrun htokens
          obtain ⟨more, hscanned, hmore⟩ := ih hrun
          refine ⟨plain ++ more, ?_, List.forall_mem_append.mpr ⟨hstep, hmore⟩⟩
          rw [hscanned, show after.tokens = _ from htokens, List.append_assoc]
      | compare after =>
          rw [hresult] at hrun htokens
          obtain ⟨more, hscanned, hmore⟩ := ih hrun
          have hword : ∀ token ∈ nameTokens names after.word,
              token.isPlain ∨ ∃ word, token ∈ nameTokens names word :=
            fun token htoken => Or.inr ⟨after.word, htoken⟩
          refine ⟨plain ++ (nameTokens names after.word ++ more), ?_,
            List.forall_mem_append.mpr ⟨hstep, List.forall_mem_append.mpr ⟨hword, hmore⟩⟩⟩
          rw [hscanned, identify, State.push, show after.tokens = _ from htokens]
          simp only [List.append_assoc]
      | done after declared =>
          rw [hresult] at hrun htokens
          cases hrun
          exact ⟨plain, htokens, hstep⟩
      | fail after fault =>
          rw [hresult] at hrun
          cases hrun

/-! ## The words that are compared with the names -/

/-- The words at which the scan of characters consults the declared names. -/
def comparedFrom (names : Names) (line : SourceLine) (opening : Bool) (state : State) :
    List Char → List (List Char)
  | [] => []
  | c :: rest =>
      match step line opening state c rest with
      | .next state => comparedFrom names line false state rest
      | .compare state =>
          state.word :: comparedFrom names line false (identify names state) rest
      | .done _ _ | .fail _ _ => []

/-- The words at which a scan consults the declared names after a step, where `rest` is still to be
scanned. -/
def comparedAfter (names : Names) (line : SourceLine) (rest : List Char) : Step → List (List Char)
  | .next state => comparedFrom names line false state rest
  | .compare state => state.word :: comparedFrom names line false (identify names state) rest
  | .done _ _ | .fail _ _ => []

theorem comparedFrom_cons (names : Names) (line : SourceLine) (opening : Bool) (state : State)
    (c : Char) (rest : List Char) :
    comparedFrom names line opening state (c :: rest) =
      comparedAfter names line rest (step line opening state c rest) := by
  rw [comparedFrom]
  cases step line opening state c rest <;> rfl

/-- The words at which the scan of a line consults the declared names. -/
def compared (names : Names) (blocks : Blocks) (line : SourceLine) : List (List Char) :=
  comparedFrom names line true { blocks } line.content.toList

/-- Names that agree on the words compared scan alike. -/
theorem run_eq_of_agree
    (hagree : ∀ word ∈ comparedFrom first line opening state chars,
      nameTokens first word = nameTokens second word) :
    run first line opening state chars = run second line opening state chars := by
  induction chars generalizing opening state with
  | nil => rfl
  | cons c rest ih =>
      rw [run_cons, run_cons]
      rw [comparedFrom_cons] at hagree
      cases hresult : step line opening state c rest with
      | next after =>
          rw [hresult] at hagree
          exact ih hagree
      | compare after =>
          rw [hresult] at hagree
          -- Both scans go on from the same state.
          have hidentify : identify first after = identify second after := by
            rw [identify, identify, hagree _ (List.mem_cons_self ..)]
          simp only [conclude]
          rw [← hidentify]
          exact ih fun word hword => hagree word (List.mem_cons_of_mem _ hword)
      | done after declared => rfl
      | fail after fault => rfl

/-- Where two scans come to the same word with the same tokens and end with the same tokens, the
names agree on the word. -/
theorem nameTokens_eq_of_append {word : List Char} {firstMore secondMore : List Token}
    (hsame : nameTokens first word ++ firstMore = nameTokens second word ++ secondMore)
    (hfirst : ∀ token ∈ firstMore, token.isPlain ∨ ∃ other, token ∈ nameTokens first other)
    (hsecond : ∀ token ∈ secondMore, token.isPlain ∨ ∃ other, token ∈ nameTokens second other) :
    nameTokens first word = nameTokens second word := by
  -- A token that one side has at this word is not plain, so the other side has it from a
  -- comparison.
  have hmem : ∀ {left right : Names} {leftMore rightMore : List Token},
      nameTokens left word ++ leftMore = nameTokens right word ++ rightMore →
      (∀ token ∈ rightMore, token.isPlain ∨ ∃ other, token ∈ nameTokens right other) →
      ∀ token ∈ nameTokens left word, token ∈ nameTokens right word := by
    intro left right leftMore rightMore heq hright token htoken
    have hboth : token ∈ nameTokens right word ++ rightMore := by
      rw [← heq]
      exact List.mem_append_left _ htoken
    rcases List.mem_append.mp hboth with hword | hmore
    · exact hword
    · rcases hright token hmore with hplain | ⟨other, hother⟩
      · obtain ⟨kind, hkind, rfl⟩ := exists_of_mem_nameTokens htoken
        rw [Token.isPlain_of, hkind] at hplain
        exact nomatch hplain
      · exact mem_nameTokens_of_mem htoken hother
  exact nameTokens_eq_iff.mpr (agree_of_mem_nameTokens_iff fun token =>
    ⟨hmem hsame hsecond token, hmem hsame.symm hfirst token⟩)

/-- Names that scan alike, without a fault, agree on the words compared. -/
theorem nameTokens_eq_of_run_eq {scanned : Scanned}
    (hfirst : (run first line opening state chars).outcome = .ok scanned)
    (hsecond : (run second line opening state chars).outcome = .ok scanned) :
    ∀ word ∈ comparedFrom first line opening state chars,
      nameTokens first word = nameTokens second word := by
  induction chars generalizing opening state with
  | nil => exact fun word hword => absurd hword List.not_mem_nil
  | cons c rest ih =>
      rw [run_cons] at hfirst hsecond
      rw [comparedFrom_cons]
      cases hresult : step line opening state c rest with
      | next after =>
          rw [hresult] at hfirst hsecond
          exact ih hfirst hsecond
      | compare after =>
          rw [hresult] at hfirst hsecond
          simp only [conclude] at hfirst hsecond
          -- Up to here the two scans are the same; both have only added tokens since.
          obtain ⟨firstMore, htokens, hfirstMore⟩ := exists_tokens_of_run hfirst
          obtain ⟨secondMore, htokens', hsecondMore⟩ := exists_tokens_of_run hsecond
          have hsame : nameTokens first after.word ++ firstMore =
              nameTokens second after.word ++ secondMore := by
            rw [htokens] at htokens'
            simpa [identify, State.push] using htokens'
          have hword : nameTokens first after.word = nameTokens second after.word :=
            nameTokens_eq_of_append hsame hfirstMore hsecondMore
          have hidentify : identify second after = identify first after := by
            rw [identify, identify, hword]
          rw [hidentify] at hsecond
          intro word hmem
          rcases List.mem_cons.mp hmem with rfl | hmem
          · exact hword
          · exact ih hfirst hsecond word hmem
      | done after declared => exact fun word hword => absurd hword List.not_mem_nil
      | fail after fault => exact fun word hword => absurd hword List.not_mem_nil

/-- Two collections of names scan a line alike exactly if they agree on every word compared, or the
line has the same fault with both. -/
theorem outcome_scanLine_eq_iff (first second : Names) (blocks : Blocks) (line : SourceLine) :
    (scanLine first blocks line).outcome = (scanLine second blocks line).outcome ↔
      (∀ word ∈ compared first blocks line, first.Agree second (String.ofList word)) ∨
        ∃ fault, (scanLine first blocks line).outcome = .error fault ∧
          (scanLine second blocks line).outcome = .error fault := by
  simp only [← nameTokens_eq_iff]
  constructor
  · intro hsame
    cases houtcome : (scanLine first blocks line).outcome with
    | error fault => exact Or.inr ⟨fault, rfl, by rw [← hsame, houtcome]⟩
    | ok scanned =>
        exact Or.inl (nameTokens_eq_of_run_eq houtcome (by rw [← houtcome, hsame]; rfl))
  · rintro (hagree | ⟨fault, hfirst, hsecond⟩)
    · exact congrArg Result.outcome (run_eq_of_agree hagree)
    · rw [hfirst, hsecond]

/-! ## Statement lines -/

private theorem comparedFrom_spaces (count : Nat) (rest : List Char) :
    comparedFrom names line opening state (List.replicate count ' ' ++ rest) =
      comparedFrom names line (opening && count = 0) state rest := by
  induction count generalizing opening with
  | zero => simp
  | succ count ih =>
      rw [List.replicate_succ, List.cons_append, comparedFrom_cons]
      simp only [step, if_true, comparedAfter]
      rw [ih]
      simp

private theorem comparedFrom_append_letters {letters rest : List Char}
    (hletters : ∀ c ∈ letters, c.isAlpha = true) (hrest : rest.head? ≠ some '\n')
    (hwords : ∀ word ∈ growth state.word letters, Keyword.ofWord? word = none) :
    comparedFrom names line opening state (letters ++ rest) =
      growth state.word letters ++
        comparedFrom names line (opening && letters.isEmpty)
          { state with
            word := state.word ++ letters
            tokens := state.tokens ++ (growth state.word letters).flatMap (nameTokens names) }
          rest := by
  induction letters generalizing opening state with
  | nil => simp [growth]
  | cons c others ih =>
      have hword : Keyword.ofWord? (state.word ++ [c]) = none :=
        hwords _ (List.mem_cons_self ..)
      rw [List.cons_append, comparedFrom_cons,
        step_letter (hletters c (List.mem_cons_self ..)) (head?_append_letters
          (fun d hd => hletters d (List.mem_cons_of_mem _ hd)) hrest),
        recognise]
      simp only [hword, comparedAfter]
      rw [ih (fun d hd => hletters d (List.mem_cons_of_mem _ hd))
        fun word hmem => hwords word (List.mem_cons_of_mem _ hmem)]
      simp [identify, State.push, growth]

/-- The scan of a statement word consults the names at its proper beginnings, and then as
recognising the word says. -/
theorem comparedFrom_opener (opener : Opener) {rest : List Char} (hrest : rest.head? ≠ some '\n')
    (hword : state.word = []) :
    comparedFrom names line opening state (opener.spelling ++ rest) =
      growth [] opener.spelling.dropLast ++
        comparedAfter names line rest (recognise line rest
          { state with
            word := opener.spelling
            tokens := state.tokens ++ beginningTokens names opener }) := by
  have hletters := isAlpha_of_mem_spelling opener
  have hlast := hletters _ (List.getLast_mem (spelling_ne_nil opener))
  have hgrowth : ∀ word ∈ growth state.word opener.spelling.dropLast,
      Keyword.ofWord? word = none := by
    rw [hword]
    exact beginning_not_keyword opener
  rw [spelling_append,
    comparedFrom_append_letters (fun c hc => hletters c (List.dropLast_subset _ hc))
      (head?_spelling_getLast opener rest) hgrowth,
    comparedFrom_cons, step_letter hlast hrest]
  simp only [hword, List.nil_append, List.dropLast_concat_getLast, beginningTokens]

/-- A line on which a statement word stands behind spaces and is followed by a space. -/
def statementLine (opener : Opener) (indent : Nat) (rest : List Char) (line : SourceLine) :
    SourceLine :=
  { line with
    content := String.ofList (List.replicate indent ' ' ++ (opener.spelling ++ ' ' :: rest)) }

/-- What becomes of a statement line at its word. -/
def atOpener (names : Names) (blocks : Blocks) (opener : Opener) (rest : List Char)
    (line : SourceLine) : Step :=
  recognise line (' ' :: rest)
    { word := opener.spelling, tokens := beginningTokens names opener, blocks }

variable {opener : Opener} {rest : List Char} {blocks : Blocks}

private theorem scanLine_statementLine (names : Names) (opener : Opener) (indent : Nat)
    (rest : List Char) (line : SourceLine) (blocks : Blocks) :
    scanLine names blocks (statementLine opener indent rest line) =
      conclude names (statementLine opener indent rest line) (' ' :: rest)
        (atOpener names blocks opener rest (statementLine opener indent rest line)) := by
  rw [scanLine, statementLine, String.toList_ofList, run_spaces, run_opener opener (by simp) rfl]
  rfl

private theorem compared_statementLine (names : Names) (opener : Opener) (indent : Nat)
    (rest : List Char) (line : SourceLine) (blocks : Blocks) :
    compared names blocks (statementLine opener indent rest line) =
      growth [] opener.spelling.dropLast ++
        comparedAfter names (statementLine opener indent rest line) (' ' :: rest)
          (atOpener names blocks opener rest (statementLine opener indent rest line)) := by
  rw [compared, statementLine, String.toList_ofList, comparedFrom_spaces,
    comparedFrom_opener opener (by simp) rfl]
  rfl

/-- Where no beginning of the word is a declared name, its reader ends the scan. -/
theorem atOpener_of_nil (hnames : beginningTokens names opener = []) :
    atOpener names blocks opener rest line =
      finish
        { word := opener.spelling
          tokens := [.keyword opener.keyword]
          blocks := opener.blocksAfter blocks }
        (opener.elements line (' ' :: rest)) opener.declares :=
  recognise_first opener _ (by simp) hnames

/-- Where a beginning of the word is a declared name, there is no statement. -/
theorem atOpener_of_ne_nil (hnames : beginningTokens names opener ≠ []) (hcond : opener ≠ .cond) :
    atOpener names blocks opener rest line =
      .done
        { word := opener.spelling
          tokens := beginningTokens names opener ++ [.keyword opener.keyword]
          blocks } {} := by
  cases htokens : beginningTokens names opener with
  | nil => exact absurd htokens hnames
  | cons token tokens =>
      have hmem : token ∈ beginningTokens names opener := by simp [htokens]
      obtain ⟨word, -, htoken⟩ := List.mem_flatMap.mp hmem
      obtain ⟨kind, hkind, rfl⟩ := exists_of_mem_nameTokens htoken
      have hfirst : ∀ other : Opener,
          Token.of kind (.text (String.ofList word)) ≠ .keyword other.keyword := by
        intro other heq
        injection heq with hkeyword
        rw [hkeyword] at hkind
        exact nomatch hkind
      rw [atOpener, recognise_later opener _ (by simp) hfirst htokens, if_neg hcond, State.push,
        htokens]

private theorem comparedAfter_atOpener (more : List Char)
    (hopener : opener ≠ .cond ∨ beginningTokens names opener = []) :
    comparedAfter names line more (atOpener names blocks opener rest line) = [] := by
  by_cases hnames : beginningTokens names opener = []
  · rw [atOpener_of_nil hnames]
    cases opener.elements line (' ' :: rest) <;> rfl
  · have hcond : opener ≠ .cond := hopener.resolve_right hnames
    rw [atOpener_of_ne_nil hnames hcond]
    rfl

/-- A statement other than a conditional has a fault only if no beginning of its word is a declared
name. -/
theorem nameTokens_eq_nil_of_error {indent : Nat} {fault : Fault} (hcond : opener ≠ .cond)
    (herror : (scanLine names blocks (statementLine opener indent rest line)).outcome =
      .error fault) :
    ∀ word ∈ growth [] opener.spelling.dropLast, nameTokens names word = [] := by
  by_cases hnames : beginningTokens names opener = []
  · exact List.flatMap_eq_nil_iff.mp hnames
  · rw [scanLine_statementLine, atOpener_of_ne_nil hnames hcond] at herror
    exact nomatch herror

/-- **When declared names leave a statement line alone.**  With two collections of names, a line
that opens with a statement word has the same tokens and declares the same names exactly if the
collections agree on the words compared; these are the proper beginnings of the statement word,
unless a conditional is turned off by a name, and then its scan goes on.  Only there can the same
fault make up for a difference. -/
theorem outcome_statementLine_eq_iff (opener : Opener) (indent : Nat) (rest : List Char)
    (line : SourceLine) (blocks : Blocks) (first second : Names) :
    ((scanLine first blocks (statementLine opener indent rest line)).outcome =
        (scanLine second blocks (statementLine opener indent rest line)).outcome ↔
      (∀ word ∈ compared first blocks (statementLine opener indent rest line),
          first.Agree second (String.ofList word)) ∨
        opener = .cond ∧ ∃ fault,
          (scanLine first blocks (statementLine opener indent rest line)).outcome = .error fault ∧
          (scanLine second blocks (statementLine opener indent rest line)).outcome =
            .error fault) ∧
      (opener ≠ .cond ∨ beginningTokens first opener = [] →
        compared first blocks (statementLine opener indent rest line) =
          growth [] opener.spelling.dropLast) := by
  have hwords : opener ≠ .cond ∨ beginningTokens first opener = [] →
      compared first blocks (statementLine opener indent rest line) =
        growth [] opener.spelling.dropLast := by
    intro hopener
    rw [compared_statementLine, comparedAfter_atOpener _ hopener, List.append_nil]
  refine ⟨?_, hwords⟩
  rw [outcome_scanLine_eq_iff]
  constructor
  · rintro (hagree | ⟨fault, hfirst, hsecond⟩)
    · exact Or.inl hagree
    · by_cases hcond : opener = .cond
      · exact Or.inr ⟨hcond, fault, hfirst, hsecond⟩
      · -- A fault comes from the reader of the statement, which no beginning has turned off.
        refine Or.inl fun word hword => nameTokens_eq_iff.mp ?_
        rw [hwords (Or.inl hcond)] at hword
        rw [nameTokens_eq_nil_of_error hcond hfirst word hword,
          nameTokens_eq_nil_of_error hcond hsecond word hword]
  · rintro (hagree | ⟨-, hfault⟩)
    · exact Or.inl hagree
    · exact Or.inr hfault

/-- The line `const d: int = 2;` declares a constant, but not after a constant `c`. -/
theorem outcome_const_after_c :
    (scanLine {} {} ⟨.integer 1, "const d: int = 2;\n", none, none⟩).outcome =
        .ok ⟨[.keyword .const, .of .word (.text "d"), .of .dynamicSize (.integer 8),
          .of .type (.text "int"), .of .value (.text "2"), .symbol .semicolon],
          { constants := ["d"] }, {}⟩ ∧
      (scanLine { constants := ["c"] } {} ⟨.integer 1, "const d: int = 2;\n", none, none⟩).outcome =
        .ok ⟨[.of .constantName (.text "c"), .keyword .const], {}, {}⟩ := by
  exact ⟨rfl, rfl⟩

end Scan

end LineCompiler
