import LineCompiler.Proofs.FinalNewline
import LineCompiler.Proofs.Flat.Lines
import LineCompiler.Proofs.Token.Identifier

/-!
# The value of a variable is lost

A declaration with a value is scanned into its name, its size, its type and its value, whichever
form it has (`elementsFrom_initialised`).  A reader of token lines asks the line of a variable
whether it has something in the place of the value, and makes a variable without a value in any
case.  So the one-line program `var x: int = 5;` is the program of `var x: int;`: storage is
reserved for the variable, and its value stands nowhere in the code (`compile_initialised`).
-/

namespace LineCompiler

open Text

/-! ## Declarations with a value -/

namespace Declaration

/-- What the three forms of declarations have in common. -/
structure Form.Standard (form : Form) : Prop where
  equals : '=' ∈ form.typeEnds
  ends : ∀ c ∈ form.typeEnds, c ∈ ['=', ';', '\n']
  complete : form.complete = if form.sized then 4 else 3

theorem Form.standard {form : Form} (hform : form ∈ [Form.constants, .vars, .pointers]) :
    form.Standard := by
  simp only [List.mem_cons, List.not_mem_nil, or_false] at hform
  rcases hform with rfl | rfl | rfl
  · exact ⟨by decide, fun _ hc => List.mem_append_left [';', '\n'] hc, rfl⟩
  · exact ⟨by decide, fun _ hc => hc, rfl⟩
  · exact ⟨by decide, fun _ hc => hc, rfl⟩

/-- The tokens of a declaration without a size, up to its type. -/
def headTokens (sized : Bool) (name type : List Char) : List Token :=
  .of .word (.ofChars name) ::
    ((if sized then [.of .dynamicSize (.integer defaultSize)] else []) ++
      [.of .type (.ofChars type)])

/-- The tokens of a declaration with a value and without a size. -/
def initialisedTokens (sized : Bool) (name type value : List Char) : List Token :=
  headTokens sized name type ++ [.of .value (.ofChars value), .symbol .semicolon]

variable {form : Form} {name type rest value : List Char}

private theorem length_headTokens (hform : form.Standard) (name type : List Char) :
    (headTokens form.sized name type).length + 1 = form.complete := by
  rw [hform.complete]
  cases form.sized <;> rfl

/-- **A declaration with a value** is read up to the semicolon behind the value. -/
theorem elementsFrom_initialised (hform : form.Standard) (hname : ∀ c ∈ name, isNameChar c = true)
    (htype : ∀ c ∈ type, c ∉ [':', '=', ';', '\n'])
    (hvalue : valueText? none rest = some (value, ';')) :
    elementsFrom form [] [] (name ++ ':' :: (type ++ '=' :: rest)) =
      initialisedTokens form.sized (packed name) (packed type) (strip value) := by
  have hlength := length_headTokens hform (packed name) (packed type)
  have hempty : Open form [] := by
    unfold Open
    rw [hform.complete]
    split <;> decide
  have hopen : Open form (headTokens form.sized (packed name) (packed type)) := by
    unfold Open
    omega
  have hfound : typeText? form.typeEnds (type ++ '=' :: rest) = some (packed type, '=', rest) := by
    apply typeText?_append _ hform.equals
    intro c hc hmem
    exact htype c hc (List.mem_cons_of_mem _ (hform.ends c hmem))
  have hwithType : withType form [.of .word (.ofChars (packed name))] (type ++ '=' :: rest) =
      headTokens form.sized (packed name) (packed type) := by
    simp only [withType, hfound]
    cases form.sized <;> rfl
  have hcolon : ':' ∉ type := fun hmem => htype _ hmem (by decide)
  have hequals : '=' ∉ type := fun hmem => htype _ hmem (by decide)
  have hne : headTokens form.sized (packed name) (packed type) ≠ [] := List.cons_ne_nil _ _
  -- The equals sign ends the type, and is met again behind it.
  rw [elementsFrom_name hempty hname, List.nil_append, elementsFrom_name_colon, hwithType,
    continued_of_open hopen, elementsFrom_skip hne hopen hcolon hequals, elementsFrom_equals hne,
    withValue, hvalue, continued_of_complete (Nat.le_refl 1)]
  · simp [initialisedTokens]
  · simp [← hlength]

end Declaration

theorem Identifier.isNameChar_of_mem (name : Identifier) :
    ∀ c ∈ ' ' :: name.text, Declaration.isNameChar c = true := by
  intro c hc
  rcases List.mem_cons.mp hc with rfl | hc
  · decide
  · have hother : ∀ mark, Flat.isPart mark = false → c ≠ mark := by
      rintro mark hmark rfl
      exact name.not_mem_text hmark hc
    simp only [Declaration.isNameChar, Bool.and_eq_true, decide_eq_true_eq, ne_eq]
    exact ⟨⟨⟨hother ':' (by decide), hother '[' (by decide)⟩, hother ']' (by decide)⟩,
      hother '=' (by decide)⟩

theorem Identifier.packed_text (name : Identifier) :
    Declaration.packed (' ' :: name.text) = name.text := by
  rw [Declaration.packed_space, Declaration.packed_eq_self (name.not_mem_text (by decide))]

/-- **A line that opens with one of the words**, as a source of its own. -/
theorem lex_opener (opener : Opener) {names : Names} {rest : List Char} {elements : List Token}
    (hrest : rest.head? ≠ some '\n') (hnames : Scan.beginningTokens names opener = [])
    (helements : opener.elements
      { number := .integer 1, content := String.ofList (opener.spelling ++ rest) } rest =
        .ok elements) :
    lex names [String.ofList (opener.spelling ++ rest)] =
      { lines := [⟨{ number := .integer 1, content := String.ofList (opener.spelling ++ rest) },
          .keyword opener.keyword :: elements⟩]
        names := names.append (opener.declares elements) } := by
  let first : SourceLine :=
    { number := .integer 1, content := String.ofList (opener.spelling ++ rest) }
  have hcontent : first.content =
      String.ofList (List.replicate 0 ' ' ++ (opener.spelling ++ rest)) := rfl
  have hscan : Scan.scanLine names {} first = _ :=
    Scan.scanLine_opener opener 0 hrest hcontent hnames helements
  have hlink : SourceLine.link [String.ofList (opener.spelling ++ rest)] = [first] := by
    have hne : String.ofList (opener.spelling ++ rest) ≠ "" := by
      cases opener <;> simp [Opener.spelling]
    rw [SourceLine.link, SourceLine.linkFrom, if_neg hne]
    rfl
  rw [lex, hlink, Lexed.scan_cons_ok (congrArg Scan.Result.outcome hscan), hscan]
  rfl

/-! ## Variables have no value -/

namespace Reader

/-- No variable of a program has a value. -/
theorem variable_absent {lines : List TokenLine} {statements : List Node}
    (hread : read lines = .ok statements) {identifier size type value : Node} {line : Atom}
    (hmem : .variable identifier size type value line ∈ Node.preorderAll statements) :
    value = .absent := by
  have hcond : (Node.variable identifier size type value line).sort ≠ Opener.cond.sort :=
    show "Variable" ≠ Opener.cond.sort by decide
  obtain ⟨-, -, found, -, heffect⟩ := (statement_mem_iff hread (by rintro ⟨⟩) hcond).mp hmem
  obtain ⟨opener, hopener⟩ := opener?_of_effect heffect rfl
  rw [effect_of_opener? hopener] at heffect
  have hsort : Opener.var.sort = opener.sort := (statement_of_openerEffect heffect).1
  have hvar : opener = .var := by
    cases opener with
    | var => rfl
    | _ => exact absurd hsort (by decide)
  subst hvar
  obtain ⟨node, hnode, heq⟩ := exists_of_map_eq_ok heffect
  obtain ⟨name, found, spelled, -, rfl⟩ := variableNode_eq_ok hnode
  cases heq
  rfl

end Reader

namespace Initialised

open Flat (Scalar Value)

variable (name : Identifier) (type : Scalar) (value : Value)

/-- The text of a variable with a value behind its keyword, without the line feed. -/
def text : List Char :=
  ' ' :: (name.text ++ ':' :: ' ' :: type.text) ++ (Flat.valueSuffix (some value) ++ [';'])

/-- The line of a variable with a value, as in `var x: int = 5;`, without the line feed. -/
def line : List Char :=
  Opener.var.spelling ++ text name type value

/-- The tokens of the line. -/
def tokens : List Token :=
  .keyword .var :: Declaration.initialisedTokens true name.text type.text value.text

/-- The names that the line declares. -/
def names : Names :=
  { vars := [String.ofList name.text] }

/-- The node of the line. -/
def node : Node :=
  .variable (.ofName name.atom) (.ofLiteral .number (.integer Declaration.defaultSize))
    (.ofType type.1.2) .absent (.integer 1)

/-- The sections of the program of the line. -/
def sections : Sections where
  bss := [⟨noLabel, [Generate.instruction (String.ofList name.text ++ " resq 8")]⟩]
  text := [⟨noLabel, Generate.prologue.code⟩]

/-! ## The line is scanned with its value -/

/-- The line feed of the line may be missing. -/
theorem stripComment_text {feed : List Char} (hfeed : feed = [] ∨ feed = ['\n']) :
    Source.stripComment (text name type value ++ feed) = text name type value ++ ['\n'] := by
  have hparts : ∀ {chars : List Char}, (∀ c ∈ chars, Flat.isPart c = true) →
      chars.all Source.isInert = true :=
    fun hchars => List.all_eq_true.mpr fun c hc => Flat.isInert_of_isPart (hchars c hc)
  have hfront : (' ' :: (name.text ++ ':' :: ' ' :: type.text)).all Source.isInert = true := by
    simp only [List.all_cons, List.all_append, hparts name.isPart_of_mem, hparts type.isPart_of_mem]
    rfl
  have hends : text name type value ++ ['\n'] =
      ' ' :: (name.text ++ ':' :: ' ' :: type.text) ++ Flat.valueSuffix (some value) ++
        [';', '\n'] := by
    simp [text]
  have hended : Source.stripComment (text name type value ++ ['\n']) =
      text name type value ++ ['\n'] := by
    rw [hends]
    apply Source.stripComment_eq_self _ (by decide)
    rw [List.append_assoc, Source.codeFrom_append_of_inert hfront, Flat.codeFrom_valueSuffix]
  rcases hfeed with rfl | rfl
  · rw [List.append_nil, ← Source.stripComment_append_feed, hended]
  · exact hended

private theorem elements_text {feed : List Char} (hfeed : feed = [] ∨ feed = ['\n']) :
    Declaration.elements .vars (text name type value ++ feed) =
      Declaration.initialisedTokens true name.text type.text value.text := by
  have hsplit : text name type value ++ ['\n'] =
      (' ' :: name.text) ++ ':' ::
        (Flat.spaced type 1 ++ '=' :: ' ' :: (value.text ++ ';' :: ['\n'])) := by
    simp [text, Flat.valueSuffix, Flat.spaced]
  have htype : ∀ c ∈ Flat.spaced type 1, c ∉ [':', '=', ';', '\n'] := by
    intro c hc hmem
    have hmarks : ∀ mark ∈ [':', '=', ';', '\n'], Flat.isPart mark = false ∧ mark ≠ ' ' := by
      simp [Flat.isPart]
    exact Flat.not_mem_spaced (hmarks c hmem).1 (hmarks c hmem).2 type 1 hc
  have hstrip : strip (' ' :: value.text) = value.text := by
    rw [strip, trim_cons_of (by decide)]
    exact value.strip_text
  rw [Declaration.elements, stripComment_text name type value hfeed, hsplit,
    Declaration.elementsFrom_initialised (Declaration.Form.standard (by simp))
      name.isNameChar_of_mem htype
      (Flat.valueText?_value value ['\n']), name.packed_text, Flat.packed_spaced, hstrip]
  rfl

/-! ## The program of the line -/

private theorem lex_line {feed : List Char} (hfeed : feed = [] ∨ feed = ['\n']) :
    lex {} [String.ofList (line name type value ++ feed)] =
      { lines := [⟨{ number := .integer 1,
                     content := String.ofList (line name type value ++ feed) },
          tokens name type value⟩]
        names := names name } := by
  have helements : Opener.var.elements
      { number := .integer 1
        content := String.ofList (Opener.var.spelling ++ (text name type value ++ feed)) }
      (text name type value ++ feed) =
      .ok (Declaration.initialisedTokens true name.text type.text value.text) :=
    congrArg Except.ok (elements_text name type value hfeed)
  rw [line, List.append_assoc,
    lex_opener .var (by simp [text]) (Flat.allNames_empty.beginningTokens_eq_nil .var) helements]
  rfl

private theorem read_line (source : SourceLine) (hnumber : source.number = .integer 1) :
    Reader.read [⟨source, tokens name type value⟩] = .ok [node name type] := by
  have heffect : Reader.effect ⟨source, tokens name type value⟩ =
      .ok (.statement (node name type)) := by
    rw [tokens, show Keyword.var = Opener.var.keyword from rfl, Reader.effect_opener, hnumber]
    have hnode : Reader.variableNode (.integer 1) (tokens name type value) = .ok (node name type) :=
      congrArg (Except.map _) (Flat.typeOf_text type)
    exact congrArg (Except.map Effect.statement) hnode
  rw [Reader.read, List.foldlM_cons, Reader.readLine_eq, heffect]
  rfl

private theorem program_line (draws : Draws) :
    Generate.program draws { statements := [node name type], names := names name } =
      .write draws [Generate.prologue,
        { target := .bss,
          code := [Generate.instruction (String.ofList name.text ++ " resq 8")] }] := by
  have hsize : " resq " ++ Number.integerText Declaration.defaultSize = " resq 8" := by decide
  rw [← hsize, ← String.append_assoc]
  rfl

private theorem newline_not_mem_line : '\n' ∉ line name type value := by
  have hvalue : '\n' ∉ value.text := by
    cases value with
    | plain text isPlain => exact isPlain.oneLine
    | quoted body isBody => simpa [Value.text, doubleQuote] using isBody.oneLine
  have hname : '\n' ∉ name.text := name.not_mem_text (by decide)
  have htype : '\n' ∉ type.text := Flat.not_mem_of_isPart type.isPart_of_mem (by decide)
  simp [line, text, Opener.spelling, Flat.valueSuffix, hname, htype, hvalue]

theorem return_not_mem_line (hreturn : '\r' ∉ value.text) : '\r' ∉ line name type value := by
  have hname : '\r' ∉ name.text := name.not_mem_text (by decide)
  have htype : '\r' ∉ type.text := Flat.not_mem_of_isPart type.isPart_of_mem (by decide)
  simp [line, text, Opener.spelling, Flat.valueSuffix, hname, htype, hreturn]

/-- The source of the line has one line, with or without a line feed at its end. -/
theorem sourceLines_line (hreturn : '\r' ∉ value.text) {feed : String}
    (hfeed : feed = "" ∨ feed = "\n") :
    sourceLines (String.ofList (line name type value) ++ feed) =
      [String.ofList (line name type value ++ feed.toList)] := by
  have hnewline := newline_not_mem_line name type value
  have hreturns : '\r' ∉ [] ++ line name type value := return_not_mem_line name type value hreturn
  rcases hfeed with rfl | rfl
  · have hne : line name type value ≠ [] := List.cons_ne_nil _ _
    simp only [String.append_empty, String.toList_empty, List.append_nil]
    exact sourceLines_unended (Or.inl rfl) hne hnewline hreturns
  · exact sourceLines_ended (Or.inl rfl) hnewline hreturns

end Initialised

/-- **The value of a variable is lost.**  Let a source be one line that declares a variable with a
value, with or without a line feed at its end.  Its tokens have the value, and behind them the
semicolon.  Its program is a variable without a value, for which storage is reserved in the bss
section, and nothing is laid out in the data section.  No token lines at all give a program with a
variable that has a value. -/
theorem compile_initialised (draws : Draws) (name : Identifier) (type : Flat.Scalar)
    (value : Flat.Value) (hreturn : '\r' ∉ value.text) {feed : String}
    (hfeed : feed = "" ∨ feed = "\n") :
    compile draws (String.ofList (Initialised.line name type value) ++ feed) =
        .generated 1
          { lines := [⟨{ number := .integer 1
                         content := String.ofList (Initialised.line name type value) ++ feed },
              Initialised.tokens name type value⟩]
            names := Initialised.names name }
          { statements := [Initialised.node name type], names := Initialised.names name }
          (Initialised.sections name) none ∧
      ∀ lines statements, Reader.read lines = .ok statements →
        ∀ identifier size type value line,
          .variable identifier size type value line ∈ Node.preorderAll statements →
            value = .absent := by
  refine ⟨?_, fun lines statements hread identifier size type value line =>
    Reader.variable_absent hread⟩
  have hchars : feed.toList = [] ∨ feed.toList = ['\n'] := by
    rcases hfeed with rfl | rfl
    · exact Or.inl rfl
    · exact Or.inr rfl
  have hsource : String.ofList (Initialised.line name type value) ++ feed =
      String.ofList (Initialised.line name type value ++ feed.toList) := by
    rw [← String.toList_inj]
    simp
  have hlex := Initialised.lex_line name type value hchars
  have hread := Initialised.read_line name type value
    { number := .integer 1,
      content := String.ofList (Initialised.line name type value ++ feed.toList) } rfl
  rw [compile, Initialised.sourceLines_line name type value hreturn hfeed, compileLines, hlex]
  simp only [hread, Initialised.program_line, hsource]
  rfl

private theorem isBody_slashes : Flat.IsBody ['a', ' ', '/', '/', ' ', 'b', ';'] :=
  ⟨by decide, by decide, by decide⟩

private theorem mem_spellings_str : ("str", TypeName.str) ∈ TypeName.spellings := by decide

/-- A name and a text in quotes, with slashes and a semicolon that have no meaning there. -/
def quotation : Identifier × Flat.Scalar × Flat.Value :=
  (.ofLetter 's' rfl, ⟨("str", .str), mem_spellings_str⟩, .quoted _ isBody_slashes)

theorem compile_initialised_quotation :
    '\r' ∉ quotation.2.2.text ∧
      compile (.ofList []) "var s: str = \"a // b;\";\n" =
        .generated 1
          { lines := [⟨{ number := .integer 1, content := "var s: str = \"a // b;\";\n" },
              [.keyword .var, .of .word (.text "s"), .of .dynamicSize (.integer 8),
                .of .type (.text "str"), .of .value (.text "\"a // b;\""),
                .symbol .semicolon]⟩]
            names := { vars := ["s"] } }
          { statements := [.variable (.ofName (.text "s")) (.ofLiteral .number (.integer 8))
              (.ofType .str) .absent (.integer 1)]
            names := { vars := ["s"] } }
          { bss := [⟨noLabel, ["\ts resq 8\n"]⟩],
            text := [⟨noLabel, Generate.prologue.code⟩] } none := by
  have hreturn : '\r' ∉ quotation.2.2.text := by decide
  have hsource : String.ofList (Initialised.line quotation.1 quotation.2.1 quotation.2.2) ++ "\n" =
      "var s: str = \"a // b;\";\n" := by decide
  have hcompile :=
    compile_initialised (.ofList []) quotation.1 quotation.2.1 quotation.2.2 hreturn (Or.inr rfl)
  rw [hsource] at hcompile
  exact ⟨hreturn, hcompile.1⟩

/-- A variable with the value five is read without it and gets storage only. -/
theorem compile_five :
    ∃ lexed program sections,
      compile (.ofList []) "var x: int = 5;\n" = .generated 1 lexed program sections none ∧
        program.statements =
          [.variable (.ofName (.text "x")) (.ofLiteral .number (.integer 8)) (.ofType .int) .absent
            (.integer 1)] ∧
        sections.data = [] ∧ sections.bss = [⟨noLabel, ["\tx resq 8\n"]⟩] := by
  have hlines : sourceLines "var x: int = 5;\n" = ["var x: int = 5;\n"] := by decide +kernel
  have hfault : (lex {} ["var x: int = 5;\n"]).fault = none := rfl
  have hread : Reader.read (lex {} ["var x: int = 5;\n"]).lines =
      .ok [.variable (.ofName (.text "x")) (.ofLiteral .number (.integer 8)) (.ofType .int) .absent
        (.integer 1)] :=
    rfl
  simp only [compile, compileLines, hlines, hfault, hread]
  exact ⟨_, _, _, rfl, rfl, rfl, rfl⟩

end LineCompiler
