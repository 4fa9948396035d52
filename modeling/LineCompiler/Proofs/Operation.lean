import LineCompiler.Proofs.Program.Order
import LineCompiler.Proofs.Text.Split
import LineCompiler.Proofs.Token.Agreement
import LineCompiler.Proofs.Token.Renumber

/-!
# Operations have no place in a program

A line as in `mul (a, b) into c;` is scanned into its operands and its result, behind the keyword of
a multiplication whichever operation it is.  A reader of token lines looks for the spelling of the
word and not for its label, and so passes the line over: the parts of an operation are found, and no
program holds one (`operation_read`).
-/

namespace LineCompiler

open Scan

namespace Arithmetic

/-- The letters of the word that opens an operation. -/
def spelling : Arithmetic → List Char
  | .multiply => ['m', 'u', 'l']
  | .add => ['a', 'd', 'd']
  | .divide => ['d', 'i', 'v']
  | .subtract => ['s', 'u', 'b']

private theorem spelling_mem_openers (operation : Arithmetic) :
    operation.spelling ∈ Operation.openers := by
  cases operation <;> decide

private theorem space_not_mem_spelling (operation : Arithmetic) : ' ' ∉ operation.spelling := by
  cases operation <;> decide

theorem isAlpha_of_mem_spelling (operation : Arithmetic) :
    ∀ c ∈ operation.spelling, c.isAlpha = true := by
  apply List.all_eq_true.mp
  cases operation <;> rfl

/-- Whichever operation the word opens, its token is that of a multiplication. -/
theorem recognise_spelling (operation : Arithmetic) (line : SourceLine) (rest : List Char)
    {state : State} (hword : state.word = operation.spelling) (htokens : state.tokens = []) :
    recognise line rest state =
      .done (state.push (.keyword .mul :: Operation.elements line.content.toList)) {} := by
  obtain ⟨word, tokens, blocks, ends⟩ := state
  subst hword htokens
  cases operation <;> rfl

end Arithmetic

/-! ## Scanning an operation -/

namespace Scan

variable {names : Names} {line : SourceLine}

/-- A line that opens with the word of an operation, where no beginning of the word is a declared
name. -/
theorem scanLine_operation (operation : Arithmetic) {rest : List Char} (blocks : Blocks)
    (hcontent : line.content = String.ofList (operation.spelling ++ rest))
    (hrest : rest.head? ≠ some '\n')
    (hnames : ∀ word, word <+: operation.spelling → nameTokens names word = []) :
    scanLine names blocks line =
      ⟨0, .ok ⟨.keyword .mul :: Operation.elements line.content.toList, {}, blocks⟩⟩ := by
  obtain ⟨front, last, hfront, hwords⟩ : ∃ front last, operation.spelling = front ++ [last] ∧
      ∀ word ∈ growth [] front, Keyword.ofWord? word = none := by
    cases operation with
    | multiply => exact ⟨['m', 'u'], 'l', rfl, by decide⟩
    | add => exact ⟨['a', 'd'], 'd', rfl, by decide⟩
    | divide => exact ⟨['d', 'i'], 'v', rfl, by decide⟩
    | subtract => exact ⟨['s', 'u'], 'b', rfl, by decide⟩
  have hletters := operation.isAlpha_of_mem_spelling
  have hchars : line.content.toList = front ++ last :: rest := by
    rw [hcontent, String.toList_ofList, hfront, List.append_assoc, List.singleton_append]
  rw [hfront] at hletters hnames
  have hlast : last.isAlpha = true := hletters last (by simp)
  have hhead : (last :: rest).head? ≠ some '\n' :=
    head?_append_letters (fun c hc => hletters c (List.mem_append_right _ hc)) hrest
  have hbeginnings : (growth [] front).flatMap (nameTokens names) = [] := by
    rw [List.flatMap_eq_nil_iff]
    intro word hword
    obtain ⟨more, -, hmore, rfl⟩ := mem_growth.mp hword
    exact hnames _ (hmore.trans (List.prefix_append front [last]))
  have hrun : scanLine names blocks line =
      conclude names line rest (recognise line rest { word := front ++ [last], blocks }) := by
    rw [scanLine, hchars,
      run_append_letters (fun c hc => hletters c (List.mem_append_left _ hc)) hhead hwords,
      run_cons, step_letter hlast hrest]
    simp only [hbeginnings, List.nil_append]
  rw [hrun, operation.recognise_spelling line rest hfront.symm rfl]
  rfl

end Scan

/-! ## The text of an operation -/

/-- A name or a numeral in an operation: any text without spaces and without a parenthesis in
front. -/
structure Term where
  text : List Char
  spaceless : ' ' ∉ text
  bare : text.head? ≠ some '('

namespace Arithmetic

/-- The pieces of an operation behind its word. -/
def pieces (left right result : Term) : List (List Char) :=
  ['(' :: left.text ++ [','], right.text ++ [')'], Operation.resultWord,
    result.text ++ [';'] ++ ['\n']]

/-- The line of an operation. -/
def line (operation : Arithmetic) (left right result : Term) : String :=
  String.ofList (operation.spelling ++ (pieces left right result).flatMap (' ' :: ·))

/-- The tokens of the parts of an operation. -/
def parts (left right result : Term) : List Token :=
  [Operation.operandToken left.text, Operation.operandToken right.text,
    .of (.mark .into) (.ofChars Operation.resultWord), .of .identifier (.ofChars result.text),
    .symbol .semicolon]

private theorem splitOn_line (operation : Arithmetic) (left right result : Term) :
    Text.splitOn ' ' (operation.line left right result).toList =
      operation.spelling :: pieces left right result := by
  rw [line, String.toList_ofList]
  apply Text.splitOn_append_flatMap operation.space_not_mem_spelling
  have hleft := left.spaceless
  have hright := right.spaceless
  have hresult := result.spaceless
  intro piece hpiece
  simp only [pieces, List.mem_cons, List.not_mem_nil, or_false] at hpiece
  rcases hpiece with rfl | rfl | rfl | rfl
  · simpa using hleft
  · simpa using hright
  · decide
  · simpa using hresult

end Arithmetic

namespace Operation

/-- A piece that opens no operation, where five tokens are not reached. -/
theorem readPieces_cons {previous piece : List Char} {tokens added : List Token}
    (rest : List (List Char)) (hpiece : piece ∉ openers)
    (hadded : pieceTokens previous piece = added) (hcount : (tokens ++ added).length ≠ 5) :
    readPieces previous tokens (piece :: rest) = readPieces piece (tokens ++ added) rest := by
  have hopener : openers.contains piece = false := by simpa using hpiece
  simp only [readPieces, hopener, hadded, if_neg hcount, Bool.false_eq_true, if_false]

section Pieces

variable {previous : List Char} (term : Term)

theorem head?_term_append {c : Char} (hc : c ≠ '(') (rest : List Char) :
    (term.text ++ c :: rest).head? ≠ some '(' := by
  cases htext : term.text with
  | nil => simpa using hc
  | cons first others => simpa [htext] using term.bare

/-- The words of an operation end in a letter. -/
theorem append_not_mem_words {c : Char} (hc : c.isAlpha = false) (front : List Char) :
    front ++ [c] ∉ resultWord :: openers := by
  have hletter : ∀ word ∈ resultWord :: openers, word.getLast?.map Char.isAlpha = some true := by
    decide
  intro hmem
  have hlast := hletter _ hmem
  rw [List.getLast?_concat, Option.map_some, hc] at hlast
  exact absurd hlast (by decide)

theorem append_ne_resultWord {c : Char} (hc : c.isAlpha = false) (front : List Char) :
    front ++ [c] ≠ resultWord := by
  intro heq
  exact append_not_mem_words hc front (heq ▸ List.mem_cons_self)

theorem append_not_mem_openers {c : Char} (hc : c.isAlpha = false) (front : List Char) :
    front ++ [c] ∉ openers :=
  fun hmem => append_not_mem_words hc front (List.mem_cons_of_mem _ hmem)

private theorem pieceTokens_left (hprevious : previous ≠ resultWord) :
    pieceTokens previous ('(' :: term.text ++ [',']) = [operandToken term.text] := by
  have hword := append_ne_resultWord (c := ',') rfl ('(' :: term.text)
  rw [pieceTokens, if_neg hword, List.getLast?_concat]
  simp [hprevious]

private theorem pieceTokens_right (hprevious : previous ≠ resultWord) :
    pieceTokens previous (term.text ++ [')']) = [operandToken term.text] := by
  rw [pieceTokens, if_neg (head?_term_append term (by decide) []),
    if_neg (append_ne_resultWord rfl term.text)]
  simp [hprevious]

private theorem pieceTokens_resultWord (hprevious : previous ≠ resultWord) :
    pieceTokens previous resultWord = [.of (.mark .into) (.ofChars resultWord)] := by
  have hhead : resultWord.head? ≠ some '(' := by decide
  have hlast : resultWord.getLast? ≠ some ')' := by decide
  simp [pieceTokens, hprevious, hhead, hlast]

private theorem pieceTokens_result :
    pieceTokens resultWord (term.text ++ [';'] ++ ['\n']) =
      [.of .identifier (.ofChars term.text), .symbol .semicolon] := by
  have hhead : (term.text ++ [';'] ++ ['\n']).head? ≠ some '(' := by
    rw [List.append_assoc]
    exact head?_term_append term (by decide) ['\n']
  rw [pieceTokens, if_neg hhead, if_neg (append_ne_resultWord rfl _)]
  simp

end Pieces

/-- **The elements of an operation** are its operands and its result. -/
theorem elements_line (operation : Arithmetic) (left right result : Term) :
    elements (operation.line left right result).toList = Arithmetic.parts left right result := by
  have hopener : openers.contains operation.spelling = true := by
    simpa using operation.spelling_mem_openers
  have hword : operation.spelling ≠ resultWord := by
    cases operation <;> decide
  have hlast : openers.contains (result.text ++ [';'] ++ ['\n']) = false := by
    simpa using append_not_mem_openers (c := '\n') rfl (result.text ++ [';'])
  -- The pieces add one token each, and the last one adds the fourth and the fifth.
  rw [elements, Arithmetic.splitOn_line, readPieces, if_pos hopener, Arithmetic.pieces,
    readPieces_cons _ (append_not_mem_openers rfl _) (pieceTokens_left left hword) (by simp),
    readPieces_cons _ (append_not_mem_openers rfl _)
      (pieceTokens_right right (append_ne_resultWord rfl _)) (by simp),
    readPieces_cons _ (by decide) (pieceTokens_resultWord (append_ne_resultWord rfl _)) (by simp),
    readPieces, hlast, pieceTokens_result]
  rfl

end Operation

/-! ## Reading an operation -/

namespace Reader

/-- A line that opens with the token of a multiplication is passed over. -/
theorem readLine_operation {line : TokenLine} (hline : line.tokens.head? = some (.keyword .mul))
    (reading : Reading) : readLine reading line = .ok reading := by
  obtain ⟨source, tokens⟩ := line
  cases tokens with
  | nil => exact nomatch hline
  | cons first rest =>
      cases hline
      rfl

/-- No program holds an operation. -/
theorem arithmetic_not_mem {lines : List TokenLine} {statements : List Node}
    (hread : read lines = .ok statements) (operation : Arithmetic) (left right result : Node) :
    .arithmetic operation left right result ∉ Node.preorderAll statements := by
  intro hmem
  have hsort : ∀ opener : Opener, operation.sort ≠ opener.sort := by
    intro opener
    cases operation <;> cases opener <;> decide
  have hcond : (Node.arithmetic operation left right result).sort ≠ Opener.cond.sort := hsort .cond
  obtain ⟨-, -, line, -, heffect⟩ := (statement_mem_iff hread (by rintro ⟨⟩) hcond).mp hmem
  obtain ⟨opener, hopener⟩ := opener?_of_effect heffect rfl
  rw [effect_of_opener? hopener] at heffect
  exact hsort opener (statement_of_openerEffect heffect).1

/-- Such a line has no part in the program of the lines that it stands among. -/
theorem read_operation {line : TokenLine} (hline : line.tokens.head? = some (.keyword .mul))
    (front back : List TokenLine) : read (front ++ [line] ++ back) = read (front ++ back) := by
  have hpass : [line].foldlM readLine = Except.ok := by
    funext reading
    rw [List.foldlM_cons, readLine_operation hline]
    rfl
  simp only [read, List.foldlM_append, hpass]
  cases front.foldlM readLine {} <;> rfl

end Reader

/-- The line of an operation has the tokens of its parts, where no declared name is a beginning of
its word. -/
theorem lex_operation {names : Names} {operation : Arithmetic} (left right result : Term)
    (hnames : ∀ name ∈ names.constants ++ names.vars ++ names.pointers ++ names.functions,
      ¬ name.toList <+: operation.spelling) :
    lex names [operation.line left right result] =
      { lines := [⟨{ number := .integer 1, content := operation.line left right result },
          .keyword .mul :: Arithmetic.parts left right result⟩]
        names } := by
  have hfree : ∀ word, word <+: operation.spelling → nameTokens names word = [] := by
    intro word hword
    rw [List.eq_nil_iff_forall_not_mem]
    intro token htoken
    have hname : String.ofList word ∈ names.constants ++ names.vars ++ names.pointers ++
        names.functions := by
      simp only [List.mem_append, or_assoc]
      exact (mem_nameTokens.mp htoken).imp And.left (Or.imp And.left (Or.imp And.left And.left))
    exact hnames _ hname (String.toList_ofList ▸ hword)
  let line : SourceLine := { number := .integer 1, content := operation.line left right result }
  have hscan : scanLine names {} line =
      ⟨0, .ok ⟨.keyword .mul :: Operation.elements line.content.toList, {}, {}⟩⟩ :=
    scanLine_operation operation {} rfl (by simp [Arithmetic.pieces]) hfree
  have hlink : SourceLine.link [operation.line left right result] = [line] := by
    have hcontent : operation.line left right result ≠ "" := by
      cases operation <;> simp [Arithmetic.line, Arithmetic.spelling]
    simp [SourceLine.link, SourceLine.linkFrom, SourceLine.follower, hcontent, line]
  have hkept : names.append {} = names := by simp [Names.append]
  rw [lex, hlink, Lexed.scan_cons_ok (congrArg Result.outcome hscan), hscan,
    Operation.elements_line, hkept]
  rfl

/-- **An operation is scanned and then dropped.**  Let no declared name be a beginning of the word
that opens an operation.  Its line is scanned into the keyword of a multiplication, whichever
operation it is, the two operands and the result, and it declares nothing.  Read by itself the line
gives no statement, and wherever it stands among token lines, the program is that of the other
lines.  No token lines at all give a program with an operation. -/
theorem operation_read (names : Names) (operation : Arithmetic) (left right result : Term)
    (hnames : ∀ name ∈ names.constants ++ names.vars ++ names.pointers ++ names.functions,
      ¬ name.toList <+: operation.spelling) :
    lex names [operation.line left right result] =
        { lines := [⟨{ number := .integer 1, content := operation.line left right result },
            .keyword .mul :: Arithmetic.parts left right result⟩]
          names } ∧
      Reader.read (lex names [operation.line left right result]).lines = .ok [] ∧
      (∀ front back,
        Reader.read (front ++ (lex names [operation.line left right result]).lines ++ back) =
          Reader.read (front ++ back)) ∧
      ∀ lines statements, Reader.read lines = .ok statements → ∀ operation left right result,
        .arithmetic operation left right result ∉ Node.preorderAll statements := by
  have hlex := lex_operation left right result hnames
  refine ⟨hlex, ?_, ?_, fun lines statements => Reader.arithmetic_not_mem⟩
  · rw [hlex]
    exact Reader.read_operation rfl [] []
  · intro front back
    rw [hlex]
    exact Reader.read_operation rfl front back

/-- The terms of a subtraction: a declared name, a numeral and a name that is not declared. -/
def difference : Term × Term × Term :=
  (⟨['a'], by decide, by decide⟩, ⟨['1', '7'], by decide, by decide⟩, ⟨['d'], by decide, by decide⟩)

theorem operation_read_difference :
    (∀ name ∈ ["a"], ¬ name.toList <+: Arithmetic.subtract.spelling) ∧
      (lex { vars := ["a"] } ["sub (a, 17) into d;\n"]).lines.map TokenLine.tokens =
        [[.keyword .mul, .of .identifier (.text "a"), .of .operand (.text "17"),
          .of (.mark .into) (.text "into"), .of .identifier (.text "d"), .symbol .semicolon]] ∧
      Reader.read (lex { vars := ["a"] } ["sub (a, 17) into d;\n"]).lines = .ok [] := by
  have hnames : ∀ name ∈ ["a"], ¬ name.toList <+: Arithmetic.subtract.spelling := by decide
  obtain ⟨hlex, hread, -⟩ := operation_read { vars := ["a"] } .subtract difference.1 difference.2.1
    difference.2.2 hnames
  exact ⟨hnames, congrArg (List.map TokenLine.tokens ∘ Lexed.lines) hlex, hread⟩

/-- A multiplication of two names is scanned without a fault, and no statement is read. -/
theorem read_product_eq_nil :
    (lex {} ["mul (a, b) into r;\n"]).fault = none ∧
      Reader.read (lex {} ["mul (a, b) into r;\n"]).lines = .ok [] :=
  ⟨rfl, rfl⟩

end LineCompiler
