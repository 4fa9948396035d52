import LineCompiler.Proofs.Number.Numeral
import LineCompiler.Token.Scan

/-!
# Lines that open with a statement word

Five words open a statement on their line: `const`, `var`, `ptr`, `syscall` and `if`.  The scan
meets such a word letter by letter, and before the word is complete it compares each of its
beginnings with the declared names.  So what the scan hands to the reader of the statement is the
word together with the tokens of the names among its beginnings (`run_opener`).
-/

namespace LineCompiler

/-- The keywords with their words. -/
def Keyword.words : List (Keyword × List Char) :=
  [(.const, ['c', 'o', 'n', 's', 't']), (.var, ['v', 'a', 'r']), (.ptr, ['p', 't', 'r']),
    (.sizeInc, ['s', 'i', 'z', 'e', '_', 'i', 'n', 'c']),
    (.sizeDec, ['s', 'i', 'z', 'e', '_', 'd', 'e', 'c']),
    (.emt, ['e', 'm', 't']), (.del, ['d', 'e', 'l']), (.mul, ['m', 'u', 'l']),
    (.add, ['a', 'd', 'd']),
    (.sub, ['s', 'u', 'b']), (.div, ['d', 'i', 'v']),
    (.syscall, ['s', 'y', 's', 'c', 'a', 'l', 'l']),
    (.cond, ['i', 'f']), (.alt, ['e', 'l', 's', 'e'])]

theorem Keyword.mem_words {word : List Char} {keyword : Keyword}
    (hword : ofWord? word = some keyword) :
    (keyword, word) ∈ words := by
  unfold ofWord? at hword
  split at hword <;> cases hword <;> decide

/-- The words that open a statement. -/
inductive Opener where
  | const | var | ptr | syscall | cond
  deriving DecidableEq

namespace Opener

/-- The keyword of a word that opens a statement. -/
def keyword : Opener → Keyword
  | .const => .const
  | .var => .var
  | .ptr => .ptr
  | .syscall => .syscall
  | .cond => .cond

/-- The letters of a word that opens a statement. -/
def spelling : Opener → List Char
  | .const => ['c', 'o', 'n', 's', 't']
  | .var => ['v', 'a', 'r']
  | .ptr => ['p', 't', 'r']
  | .syscall => ['s', 'y', 's', 'c', 'a', 'l', 'l']
  | .cond => ['i', 'f']

@[simp] theorem ofWord?_spelling (opener : Opener) :
    Keyword.ofWord? opener.spelling = some opener.keyword := by
  cases opener <;> rfl

theorem eq_spelling {opener : Opener} {word : List Char}
    (hword : Keyword.ofWord? word = some opener.keyword) : word = opener.spelling := by
  have hmem := Keyword.mem_words hword
  cases opener <;> simpa [Keyword.words, keyword, spelling] using hmem

/-- The words that open a statement. -/
def all : List Opener :=
  [.const, .var, .ptr, .syscall, .cond]

/-- The word that a token stands for. -/
def ofToken? (token : Token) : Option Opener :=
  all.find? fun opener => token = .keyword opener.keyword

@[simp] theorem ofToken?_keyword (opener : Opener) :
    ofToken? (.keyword opener.keyword) = some opener := by
  cases opener <;> rfl

theorem eq_of_ofToken? {token : Token} {opener : Opener} (htoken : ofToken? token = some opener) :
    token = .keyword opener.keyword := by
  simpa using List.find?_some htoken

theorem ofToken?_eq_none {token : Token}
    (htoken : ∀ opener : Opener, token ≠ .keyword opener.keyword) :
    ofToken? token = none := by
  rw [ofToken?, List.find?_eq_none]
  intro opener _
  simpa using htoken opener

/-- The tokens of the statement that the word opens; `rest` follows the word on its line. -/
def elements (opener : Opener) (line : SourceLine) (rest : List Char) : Except Fault (List Token) :=
  match opener with
  | .const => .ok (Declaration.elements .constants rest)
  | .var => .ok (Declaration.elements .vars rest)
  | .ptr => .ok (Declaration.elements .pointers rest)
  | .syscall => Syscall.elements line.number rest
  | .cond => Condition.headElements line.number line.content.toList

/-- The names that the tokens of the statement declare. -/
def declares (opener : Opener) (elements : List Token) : Names :=
  match opener with
  | .const => { constants := Declaration.namesOf elements }
  | .var => { vars := Declaration.namesOf elements }
  | .ptr => { pointers := Declaration.namesOf elements }
  | .syscall | .cond => {}

/-- The blocks after the word: a conditional opens its first block. -/
def blocksAfter (opener : Opener) (blocks : Blocks) : Blocks :=
  match opener with
  | .cond => { blocks with inIf := true }
  | _ => blocks

end Opener

namespace Scan

variable {names : Names} {line : SourceLine} {first : Bool} {state : State}

/-! ## Steps and runs -/

/-- How a scan ends after a step, where `rest` is still to be scanned. -/
def conclude (names : Names) (line : SourceLine) (rest : List Char) : Step → Result
  | .next state => run names line false state rest
  | .compare state => run names line false (identify names state) rest
  | .done state declared => ⟨state.ends, .ok ⟨state.tokens, declared, state.blocks⟩⟩
  | .fail state fault => ⟨state.ends, .error fault⟩

theorem run_cons (names : Names) (line : SourceLine) (first : Bool) (state : State) (c : Char)
    (rest : List Char) :
    run names line first state (c :: rest) =
      conclude names line rest (step line first state c rest) := by
  rw [run]
  cases step line first state c rest <;> rfl

theorem run_spaces (count : Nat) (rest : List Char) :
    run names line first state (List.replicate count ' ' ++ rest) =
      run names line (first && count = 0) state rest := by
  induction count generalizing first with
  | zero => simp
  | succ count ih =>
      rw [List.replicate_succ, List.cons_append, run_cons]
      simp only [step, if_true, conclude]
      rw [ih]
      simp

/-- A letter that does not end its line joins the word. -/
theorem step_letter {c : Char} {rest : List Char} (hletter : c.isAlpha = true)
    (hrest : rest.head? ≠ some '\n') :
    step line first state c rest =
      recognise line rest { state with word := state.word ++ [c] } := by
  have hother : ∀ other : Char, other.isAlpha = false → c ≠ other := by
    rintro other hnot rfl
    rw [hletter] at hnot
    exact absurd hnot (by decide)
  simp only [step, scanMark, hrest, hother ' ' (by decide), hother '/' (by decide),
    hother ';' (by decide), hother Text.openBrace (by decide), hother Text.closeBrace (by decide),
    if_false, decide_false, Bool.and_false, Bool.false_and, Bool.false_eq_true]

/-! ## Words -/

/-- The words that characters make as they join `front` one by one. -/
def growth (front : List Char) : List Char → List (List Char)
  | [] => []
  | c :: rest => (front ++ [c]) :: growth (front ++ [c]) rest

theorem mem_growth {front letters word : List Char} :
    word ∈ growth front letters ↔ ∃ more, more ≠ [] ∧ more <+: letters ∧ word = front ++ more := by
  induction letters generalizing front with
  | nil =>
      simp only [growth, List.not_mem_nil, false_iff, not_exists, not_and, List.prefix_nil]
      intro more hne heq
      exact absurd heq hne
  | cons c rest ih =>
      rw [growth, List.mem_cons, ih]
      constructor
      · rintro (rfl | ⟨more, hne, hmore, rfl⟩)
        · exact ⟨[c], by simp, ⟨rest, rfl⟩, rfl⟩
        · exact ⟨c :: more, by simp, List.cons_prefix_cons.mpr ⟨rfl, hmore⟩, by simp⟩
      · rintro ⟨more, hne, hmore, rfl⟩
        cases more with
        | nil => exact absurd rfl hne
        | cons d more =>
            obtain ⟨rfl, htail⟩ := List.cons_prefix_cons.mp hmore
            cases more with
            | nil => exact Or.inl rfl
            | cons e more => exact Or.inr ⟨e :: more, by simp, htail, by simp⟩

theorem head?_append_letters {letters rest : List Char}
    (hletters : ∀ c ∈ letters, c.isAlpha = true) (hrest : rest.head? ≠ some '\n') :
    (letters ++ rest).head? ≠ some '\n' := by
  cases letters with
  | nil => exact hrest
  | cons c letters =>
      intro hnewline
      have hc := hletters c (List.mem_cons_self ..)
      rw [show c = '\n' by simpa using hnewline] at hc
      exact absurd hc (by decide)

/-- Letters that make no keyword grow the word and add the tokens of the names they make. -/
theorem run_append_letters {letters rest : List Char}
    (hletters : ∀ c ∈ letters, c.isAlpha = true) (hrest : rest.head? ≠ some '\n')
    (hwords : ∀ word ∈ growth state.word letters, Keyword.ofWord? word = none) :
    run names line first state (letters ++ rest) =
      run names line (first && letters.isEmpty)
        { state with
          word := state.word ++ letters
          tokens := state.tokens ++ (growth state.word letters).flatMap (nameTokens names) }
        rest := by
  induction letters generalizing first state with
  | nil => simp [growth]
  | cons c others ih =>
      have hhead : (others ++ rest).head? ≠ some '\n' :=
        head?_append_letters (fun d hd => hletters d (List.mem_cons_of_mem _ hd)) hrest
      have hword : Keyword.ofWord? (state.word ++ [c]) = none :=
        hwords _ (List.mem_cons_self ..)
      rw [List.cons_append, run_cons, step_letter (hletters c (List.mem_cons_self ..)) hhead,
        recognise]
      simp only [hword, conclude]
      rw [ih (fun d hd => hletters d (List.mem_cons_of_mem _ hd))
        fun word hmem => hwords word (List.mem_cons_of_mem _ hmem)]
      simp [identify, State.push, growth]

/-! ## The words that open a statement -/

/-- The tokens of the names among the beginnings of a word that opens a statement. -/
def beginningTokens (names : Names) (opener : Opener) : List Token :=
  (growth [] opener.spelling.dropLast).flatMap (nameTokens names)

theorem beginning_not_keyword (opener : Opener) :
    ∀ word ∈ growth [] opener.spelling.dropLast, Keyword.ofWord? word = none := by
  cases opener <;> decide

theorem isAlpha_of_mem_spelling (opener : Opener) : ∀ c ∈ opener.spelling, c.isAlpha = true := by
  apply List.all_eq_true.mp
  cases opener <;> rfl

theorem spelling_ne_nil (opener : Opener) : opener.spelling ≠ [] := by
  cases opener <;> decide

theorem spelling_append (opener : Opener) (rest : List Char) :
    opener.spelling ++ rest =
      opener.spelling.dropLast ++ opener.spelling.getLast (spelling_ne_nil opener) :: rest := by
  rw [List.append_cons, List.dropLast_concat_getLast]

theorem head?_spelling_getLast (opener : Opener) (rest : List Char) :
    (opener.spelling.getLast (spelling_ne_nil opener) :: rest).head? ≠ some '\n' := by
  cases opener <;> simp [Opener.spelling]

/-- A word that opens a statement stands first on its line: the rest of the line is its
statement. -/
theorem recognise_first (opener : Opener) (rest : List Char)
    (hword : Keyword.ofWord? state.word = some opener.keyword) (htokens : state.tokens = []) :
    recognise line rest state =
      finish
        { state with
          tokens := [.keyword opener.keyword]
          blocks := opener.blocksAfter state.blocks }
        (opener.elements line rest) opener.declares := by
  obtain ⟨word, tokens, blocks, ends⟩ := state
  subst htokens
  rw [recognise, hword]
  cases opener with
  | const | var | ptr | syscall => rfl
  | cond =>
      have hread : Condition.read? line.number [Token.keyword .cond] line.content.toList =
          (Condition.headElements line.number line.content.toList).map some := rfl
      simp only [Opener.keyword, State.push, List.nil_append, hread, Opener.elements]
      cases Condition.headElements line.number line.content.toList <;> rfl

/-- A word that opens a statement stands behind another token: there is no statement, and only a
conditional lets the scan go on. -/
theorem recognise_later (opener : Opener) (rest : List Char)
    (hword : Keyword.ofWord? state.word = some opener.keyword) {kind : TokenKind} {value : Atom}
    {tokens : List Token}
    (hfirst : ∀ opener : Opener, Token.of kind value ≠ .keyword opener.keyword)
    (htokens : state.tokens = .of kind value :: tokens) :
    recognise line rest state =
      if opener = .cond then
        .compare { state.push [.keyword .cond] with
          blocks := { state.blocks with inIf := true } }
      else .done (state.push [.keyword opener.keyword]) {} := by
  have hconst := hfirst .const
  have hvar := hfirst .var
  have hptr := hfirst .ptr
  have hsyscall := hfirst .syscall
  have hcond := hfirst .cond
  simp only [Opener.keyword] at hconst hvar hptr hsyscall hcond
  rw [recognise, hword]
  cases opener <;>
    simp [Opener.keyword, State.push, htokens, finish, Declaration.read, Syscall.read,
      Condition.read?, Token.opens, Token.tokenAt, Text.itemAt?, Token.isConstant,
      Token.isVariable, Token.isPointer, Token.isSyscall, Token.isConditional, Token.isSame,
      Token.entry, hconst, hvar, hptr, hsyscall, hcond, Except.bind, Except.map, bind,
      pure, Except.pure,
      Declaration.namesOf]

/-- **A word that opens a statement** is recognised behind the tokens of the names among its
beginnings. -/
theorem run_opener (opener : Opener) {rest : List Char} (hrest : rest.head? ≠ some '\n')
    (hword : state.word = []) :
    run names line first state (opener.spelling ++ rest) =
      conclude names line rest (recognise line rest
        { state with
          word := opener.spelling
          tokens := state.tokens ++ beginningTokens names opener }) := by
  have hletters := isAlpha_of_mem_spelling opener
  have hlast := hletters _ (List.getLast_mem (spelling_ne_nil opener))
  have hgrowth : ∀ word ∈ growth state.word opener.spelling.dropLast,
      Keyword.ofWord? word = none := by
    rw [hword]
    exact beginning_not_keyword opener
  rw [spelling_append, run_append_letters (fun c hc => hletters c (List.dropLast_subset _ hc))
    (head?_spelling_getLast opener rest) hgrowth, run_cons, step_letter hlast hrest]
  simp only [hword, List.nil_append, List.dropLast_concat_getLast, beginningTokens]

/-- A line that opens with such a word, where no beginning of the word is a declared name. -/
theorem scanLine_opener (opener : Opener) (indent : Nat) {rest : List Char} {blocks : Blocks}
    {elements : List Token} (hrest : rest.head? ≠ some '\n')
    (hcontent : line.content =
      String.ofList (List.replicate indent ' ' ++ (opener.spelling ++ rest)))
    (hnames : beginningTokens names opener = [])
    (helements : opener.elements line rest = .ok elements) :
    scanLine names blocks line =
      ⟨0, .ok ⟨.keyword opener.keyword :: elements, opener.declares elements,
        opener.blocksAfter blocks⟩⟩ := by
  rw [scanLine, hcontent, String.toList_ofList, run_spaces, run_opener opener hrest rfl,
    recognise_first opener rest (by simp) (by simp [hnames]), helements]
  rfl

end Scan

end LineCompiler
