import LineCompiler.Proofs.Replacement
import LineCompiler.Proofs.Token.Tail

/-!
# Spaces and comments at the end of a line

A line of a source that compiles may get a tail of spaces, or of spaces and a comment.  The source
is then scanned without a fault too, and no other line and no name is changed (`compile_withTail`).
What the line itself does may change, and `Scan.Disturbed` tells when.  Otherwise the program and
its code stay the same.

The line that opens the second block of a conditional is disturbed by a single space
(`read_secondBlock`).
-/

namespace LineCompiler

/-! ## Lines in their sources -/

/-- A line of a source that ends with a line end, which is the first character behind it. -/
structure Place where
  front : List Char
  text : List Char
  back : List Char
  starts : front = [] ∨ front.getLast?.any Text.isNewline = true
  inLine : '\n' ∉ text ∧ '\r' ∉ text
  ends : back.head?.any Text.isNewline = true
  /-- There is no line between a carriage return and its line feed. -/
  whole : front.getLast? = some '\r' → text = [] → back.head? ≠ some '\n'

namespace Place

/-- The whole source. -/
def source (place : Place) : String :=
  .ofList (place.front ++ (place.text ++ place.back))

/-- The line, with a line feed at its end. -/
def line (place : Place) : String :=
  .ofList (place.text ++ ['\n'])

/-- The same place with a tail at the end of the line. -/
def withTail (place : Place) (tail : Gap) : Place where
  front := place.front
  text := place.text ++ tail.text
  back := place.back
  starts := place.starts
  inLine := by
    have htail := tail.text_inLine
    simp only [List.mem_append, not_or]
    exact ⟨⟨place.inLine.1, htail.1⟩, place.inLine.2, htail.2⟩
  ends := place.ends
  whole hfront htext := place.whole hfront (List.append_eq_nil_iff.mp htext).1

/-- The lines in front of the place. -/
def linesBefore (place : Place) : List String :=
  (Text.lines (Text.unifyNewlines place.front)).map .ofList

/-- The lines behind the place. -/
def linesAfter (place : Place) : List String :=
  (Text.lines (Text.unifyNewlines place.back).tail).map .ofList

theorem line_ne_empty (place : Place) : place.line ≠ "" := by
  intro hline
  simpa [line] using congrArg String.toList hline

theorem sourceLines_source (place : Place) :
    sourceLines place.source = place.linesBefore ++ place.line :: place.linesAfter := by
  have hcut : place.front.getLast? = some '\r' → (place.text ++ place.back).head? ≠ some '\n' := by
    intro hfront
    cases htext : place.text with
    | nil => exact place.whole hfront htext
    | cons c rest =>
        intro hhead
        exact place.inLine.1 (by simp [htext, Option.some.inj hhead])
  have htextCut : place.text.getLast? = some '\r' → place.back.head? ≠ some '\n' := by
    intro hlast
    exact absurd (List.mem_of_getLast? hlast) place.inLine.2
  have hbefore : Text.EndsLine (Text.unifyNewlines place.front) := by
    rcases place.starts with hnil | hlast
    · rw [hnil]
      exact Or.inl rfl
    · exact Or.inr (Text.getLast?_unifyNewlines hlast)
  have hline : Text.EndsLine (place.text ++ ['\n']) := Or.inr List.getLast?_concat
  obtain ⟨rest, hrest⟩ := List.head?_eq_some_iff.mp (Text.head?_unifyNewlines place.ends)
  rw [linesAfter, linesBefore, line, sourceLines, source, String.toList_ofList,
    Text.unifyNewlines_append hcut, Text.unifyNewlines_append htextCut,
    Text.unifyNewlines_eq_self place.inLine.2, hrest, List.append_cons, Text.lines_append hbefore,
    Text.lines_append hline, Text.lines_single place.inLine.1, List.map_append]
  rfl

end Place

/-! ## What a line does -/

namespace Reader

/-- **When a line with a tail does what it does without it.** -/
theorem effect_tailScan {text : List Char} {tail : Gap} {scanned trailed : Scan.Scanned}
    {line other : SourceLine} (htail : Scan.TailScan text tail scanned trailed)
    (hnumber : other.number = line.number) :
    effect ⟨other, trailed.tokens⟩ = effect ⟨line, scanned.tokens⟩ ↔
      ¬ Scan.Disturbed text tail scanned.tokens trailed.tokens := by
  rw [← htail.edges]
  rcases htail.tokens with hsame | ⟨hscanned, htrailed⟩
  · rw [hsame]
    exact iff_of_true (effect_congr hnumber rfl) (.refl _)
  · exact effect_eq_iff hscanned htrailed

end Reader

/-- **Tails of lines.**  In a source that compiles, let a line whose quotes are closed and which
does not end with a slash get a tail of spaces, or of spaces and a comment.  Then the source is
scanned without a fault, the other lines have the same tokens, and the names are the same.  The line
does what it did before if and only if it is not `Disturbed`.  If it is not, the source compiles to
the same statements and the same code. -/
theorem compile_withTail (draws : Draws) (place : Place) (tail : Gap)
    (hcompile : (compile draws place.source).fault? = none)
    (hquotes : Source.QuotesClosed place.text) (hslash : place.text.getLast? ≠ some '/') :
    ∃ front line trailed back,
      Lexed.Replaced front line trailed back (lex {} (sourceLines place.source))
          (lex {} (sourceLines (place.withTail tail).source)) ∧
        line.line.content = place.line ∧ trailed.line.content = (place.withTail tail).line ∧
        (Reader.effect trailed = Reader.effect line ↔
          ¬ Scan.Disturbed place.text tail line.tokens trailed.tokens) ∧
        (¬ Scan.Disturbed place.text tail line.tokens trailed.tokens →
          (compile draws place.source).SameProgram
            (compile draws (place.withTail tail).source)) := by
  have hscan := lex_fault_of_compileLines hcompile
  have hsource := place.sourceLines_source
  have htrailedSource : sourceLines (place.withTail tail).source =
      place.linesBefore ++ (place.withTail tail).line :: place.linesAfter :=
    (place.withTail tail).sourceLines_source
  rw [hsource] at hscan
  obtain ⟨frontLines, line, last, -, -, hjoin⟩ :=
    Lexed.exists_lex_eq_join {} place.line_ne_empty hscan
  rw [hjoin _ place.line_ne_empty] at hscan
  obtain ⟨scanned, hline⟩ := Lexed.scanned_of_fault hscan
  have hcontent : (place.withTail tail).line.toList = place.text ++ (tail.text ++ ['\n']) := by
    rw [Place.line, Place.withTail, String.toList_ofList, List.append_assoc]
  obtain ⟨trailed, htrailed, htail⟩ :
      ∃ trailed, (Scan.scanLine _ last
        { line with content := (place.withTail tail).line }).outcome = .ok trailed ∧
        Scan.TailScan place.text tail scanned trailed :=
    Scan.tailScan_scanLine hline rfl (String.toList_ofList ..) hcontent place.inLine.1
      hquotes hslash
  have hreplaced := Lexed.replaced_join _ hline htrailed htail.declared htail.blocks
    (SourceLine.linkFrom (1 + place.linesBefore.length + 1)
      (some (1 + place.linesBefore.length)) place.linesAfter)
  rw [← hjoin _ place.line_ne_empty, ← hjoin _ (place.withTail tail).line_ne_empty, ← hsource,
    ← htrailedSource] at hreplaced
  have heffect : Reader.effect ⟨{ line with content := (place.withTail tail).line },
      trailed.tokens⟩ =
      Reader.effect ⟨{ line with content := place.line }, scanned.tokens⟩ ↔
        ¬ Scan.Disturbed place.text tail scanned.tokens trailed.tokens :=
      Reader.effect_tailScan htail rfl
  refine ⟨_, _, _, _, hreplaced, rfl, rfl, heffect, fun hdisturbed => ?_⟩
  refine sameProgram_compileLines draws hcompile ?_ hreplaced.names (Reader.read_congr ?_)
  · rw [hreplaced.fault]
    exact lex_fault_of_compileLines hcompile
  · rw [hreplaced.lines, hreplaced.others, List.map_append, List.map_append, List.map_cons,
      List.map_cons, heffect.mpr hdisturbed]

/-- The last line of a conditional, with carriage returns at the ends of the lines. -/
def lastBrace : Place where
  front := "if (a == b) \x7b\r\nvar x: int;\r\n\x7d else \x7b\r\n".toList
  text := [Text.closeBrace]
  back := ['\r', '\n']
  starts := Or.inr rfl
  inLine := by decide
  ends := rfl
  whole := by decide

/-- A comment with a space in front of it. -/
def endComment : Gap where
  indent := 1
  comment := some " end; x"
  inLine := by decide

theorem compile_withTail_lastBrace :
    (compile (.ofList []) lastBrace.source).fault? = none ∧ Source.QuotesClosed lastBrace.text ∧
      lastBrace.text.getLast? ≠ some '/' ∧
      (compile (.ofList []) lastBrace.source).SameProgram
        (compile (.ofList []) (lastBrace.withTail endComment).source) := by
  have hcompile : (compile (.ofList []) lastBrace.source).fault? = none := by decide +kernel
  have hquotes : Source.QuotesClosed lastBrace.text := by
    unfold Source.QuotesClosed
    decide
  have hslash : lastBrace.text.getLast? ≠ some '/' := by decide
  have hundisturbed : ∀ line ∈ (lex {} (sourceLines lastBrace.source)).lines,
      line.line.content = lastBrace.line →
      ∀ trailed ∈ (lex {} (sourceLines (lastBrace.withTail endComment).source)).lines,
        ¬ Scan.Disturbed lastBrace.text endComment line.tokens trailed.tokens := by decide +kernel
  obtain ⟨front, line, trailed, back, hreplaced, hline, -, -, hsame⟩ :=
    compile_withTail (.ofList []) lastBrace endComment hcompile hquotes hslash
  refine ⟨hcompile, hquotes, hslash, hsame (hundisturbed line ?_ hline trailed ?_)⟩
  · simp [hreplaced.lines]
  · simp [hreplaced.others]

/-- The line that opens the second block of a conditional no longer does with a space at its end,
and then there is no statement. -/
theorem read_secondBlock :
    (compile (.ofList []) "if (a == b) \x7b\n\x7d else \x7b\n\x7d\n").fault? = none ∧
      (∃ statement, Reader.read
        (lex {} (sourceLines "if (a == b) \x7b\n\x7d else \x7b\n\x7d\n")).lines =
        .ok [statement]) ∧
      Reader.read (lex {} (sourceLines "if (a == b) \x7b\n\x7d else \x7b \n\x7d\n")).lines =
        .ok [] :=
  ⟨by decide +kernel, ⟨_, rfl⟩, rfl⟩

end LineCompiler
