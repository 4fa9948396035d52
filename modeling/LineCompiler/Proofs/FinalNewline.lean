import LineCompiler.Proofs.Assembly.Blocks
import LineCompiler.Proofs.Replacement
import LineCompiler.Proofs.Token.Unended

/-!
# The line feed at the end of a source

A source that compiles with one more line feed at its end compiles without it to the same program,
unless it ends with a slash and a statement ends on its last line (`compile_withoutNewline`).  The
scan then asks for the character behind the slash, and fails.
-/

namespace LineCompiler

/-! ## Notices -/

namespace Lexed

private theorem endNotice_inj {first second : Nat}
    (hnotice : endNotice (.integer first) = endNotice (.integer second)) :
    first = second := by
  have hplain : ∀ number : Nat, (Atom.integer number).plain = Nat.repr number := by
    intro number
    rw [Atom.plain, Number.integerText, if_neg (by omega), Int.natAbs_natCast]
  rw [endNotice, endNotice, String.append_left_inj, hplain, hplain] at hnotice
  exact Generate.append_repr_inj.mp hnotice

/-- A notice of a scan tells the number of one of the lines. -/
theorem exists_of_mem_notices {names : Names} {blocks : Blocks} {lines : List SourceLine}
    {notice : String} (hnotice : notice ∈ (scan names blocks lines).notices) :
    ∃ line ∈ lines, notice = endNotice line.number := by
  induction lines generalizing names blocks with
  | nil => exact absurd hnotice List.not_mem_nil
  | cons line rest ih =>
      cases hline : (Scan.scanLine names blocks line).outcome with
      | error fault =>
          rw [scan_cons_error hline] at hnotice
          exact ⟨line, List.mem_cons_self .., List.eq_of_mem_replicate hnotice⟩
      | ok scanned =>
          rw [scan_cons_ok hline] at hnotice
          rcases List.mem_append.mp hnotice with hhere | hlater
          · exact ⟨line, List.mem_cons_self .., List.eq_of_mem_replicate hhere⟩
          · obtain ⟨other, hother, heq⟩ := ih hlater
            exact ⟨other, List.mem_cons_of_mem _ hother, heq⟩

/-- The log tells whether a statement has ended on the last line. -/
theorem endNotice_mem_join {names : Names} {blocks last : Blocks} {front : List SourceLine}
    {line : SourceLine} {scanned : Scan.Scanned} {count : Nat}
    (hline : (Scan.scanLine (scan names blocks front).names last line).outcome = .ok scanned)
    (hnumber : line.number = .integer count)
    (hfront : ∀ other ∈ front, ∃ number < count, other.number = .integer number) :
    endNotice (.integer count) ∈
        ((scan names blocks front).join
          (scan (scan names blocks front).names last [line])).notices ↔
      (Scan.scanLine (scan names blocks front).names last line).ends ≠ 0 := by
  have hearlier : endNotice (.integer count) ∉ (scan names blocks front).notices := by
    intro hnotice
    obtain ⟨other, hother, heq⟩ := exists_of_mem_notices hnotice
    obtain ⟨number, hlt, hsame⟩ := hfront other hother
    rw [hsame] at heq
    exact absurd (endNotice_inj heq) (Nat.ne_of_gt hlt)
  rw [scan_cons_ok hline, join, hnumber]
  simp [hearlier, scan]

end Lexed

/-! ## A last line without characters -/

/-- The line of a single line feed. -/
def emptyGap : Gap where
  indent := 0
  comment := none
  inLine := by simp

private theorem Reader.read_append_passedOver {lines : List TokenLine} {line : TokenLine}
    (hline : PassedOver line.tokens) :
    read (lines ++ [line]) = read lines := by
  rw [read_concat, read]
  cases lines.foldlM readLine {} with
  | error fault => rfl
  | ok reading =>
      show (readLine reading line).map Reading.settled = .ok reading.settled
      rw [readLine_of_passedOver hline]
      rfl

private theorem sameProgram_emptyLine (draws : Draws) {lines : List String} (hlines : "" ∉ lines)
    (hcompile : (compileLines draws (lines ++ [emptyGap.line])).fault? = none) :
    (compileLines draws (lines ++ [emptyGap.line])).SameProgram (compileLines draws lines) := by
  have hmore : "" ∉ lines ++ [emptyGap.line] := by
    rw [List.mem_append, not_or]
    exact ⟨hlines, by decide⟩
  have hshort := Lexed.renumbered_lex hlines {}
  have hlong := Lexed.renumbered_lex hmore {}
  have hscan := lex_fault_of_compileLines hcompile
  rw [SourceLine.numbered_append] at hlong
  rw [hlong.fault_eq] at hscan
  have hfault := Lexed.fault_of_append hscan
  obtain ⟨last, hlast⟩ := Lexed.scan_append hfault
  -- The empty line is passed over, and declares nothing.
  obtain ⟨tokens, hpassed, houtcome⟩ := Scan.outcome_scanLine_gap
    (show ({ number := .integer (1 + lines.length : Nat),
             content := emptyGap.line } : SourceLine).content = _ from rfl)
    (Lexed.scan {} {} (SourceLine.numbered 1 lines)).names last
  rw [hlast, show SourceLine.numbered (1 + lines.length) [emptyGap.line] = [_] from rfl,
    Lexed.scan_cons_ok houtcome] at hlong
  refine sameProgram_compileLines draws hcompile ?_ ?_ ?_
  · rw [hshort.fault_eq, hfault]
  · rw [hshort.names, hlong.names]
    simp [Lexed.join, Lexed.scan, Names.append]
  · rw [hshort.read_eq, hlong.read_eq]
    exact (Reader.read_append_passedOver hpassed).symm

/-! ## A last line with characters -/

/-- Whether a text ends with a slash, and the log tells that a statement has ended on the line with
the number. -/
def Exposed (text : List Char) (number : Nat) (lexed : Lexed) : Prop :=
  text.getLast? = some '/' ∧ Lexed.endNotice (.integer number) ∈ lexed.notices

instance (text : List Char) (number : Nat) (lexed : Lexed) :
    Decidable (Exposed text number lexed) :=
  inferInstanceAs (Decidable (_ ∧ _))

private theorem compileLines_unended (draws : Draws) {front : List String} {text : List Char}
    (hne : text ≠ []) (htext : '\n' ∉ text)
    (hcompile : (compileLines draws (front ++ [.ofList (text ++ ['\n'])])).fault? = none) :
    (Exposed text (1 + front.length) (lex {} (front ++ [.ofList (text ++ ['\n'])])) →
        ∃ lexed, compileLines draws (front ++ [.ofList text]) =
          .unscanned lexed .missingCharacter) ∧
      (¬ Exposed text (1 + front.length) (lex {} (front ++ [.ofList (text ++ ['\n'])])) →
        (compileLines draws (front ++ [.ofList (text ++ ['\n'])])).SameProgram
          (compileLines draws (front ++ [.ofList text]))) := by
  have hscan := lex_fault_of_compileLines hcompile
  have hended : String.ofList (text ++ ['\n']) ≠ "" := fun heq => by
    simpa using congrArg String.toList heq
  have hunended : String.ofList text ≠ "" :=
    fun heq => hne (by simpa using congrArg String.toList heq)
  obtain ⟨frontLines, line, last, hnumber, hnumbers, hjoin⟩ :=
    Lexed.exists_lex_eq_join {} hended hscan
  simp only [SourceLine.linkFrom] at hjoin
  have hlong := hjoin _ hended
  have hshort := hjoin _ hunended
  rw [hlong] at hscan
  obtain ⟨scanned, hline⟩ := Lexed.scanned_of_fault hscan
  have hnotice := Lexed.endNotice_mem_join hline hnumber hnumbers
  obtain ⟨hfails, hunfed⟩ := Scan.unfed_scanLine { line with content := .ofList text } hline rfl
    (String.toList_ofList ..) (String.toList_ofList ..) htext
  rw [← hnotice, ← hlong] at hfails hunfed
  refine ⟨fun hexposed => ?_, fun hexposed => ?_⟩
  · have hfault : (lex {} (front ++ [.ofList text])).fault = some .missingCharacter := by
      rw [hshort, Lexed.scan_cons_error (hfails hexposed)]
      rfl
    exact ⟨_, compileLines_of_fault draws hfault⟩
  · obtain ⟨unfed, hother, hsimilar, hcloses⟩ := hunfed hexposed
    have hreplaced := Lexed.replaced_join _ hline hother hsimilar.declared hsimilar.blocks []
    rw [← hlong, ← hshort] at hreplaced
    refine sameProgram_compileLines draws hcompile ?_ hreplaced.names ?_
    · rw [hreplaced.fault]
      exact lex_fault_of_compileLines hcompile
    · rw [hreplaced.lines, hreplaced.others]
      rcases hsimilar.tokens with hsame | ⟨hscanned, hunopened⟩
      · refine Reader.read_congr ?_
        rw [List.map_append, List.map_append, List.map_cons, List.map_cons]
        exact congrArg (fun found => _ ++ found :: _) (Reader.effect_congr rfl hsame)
      · exact Reader.read_append_congr rfl hscanned hunopened hcloses

/-! ## The end of the source -/

section LastLine

variable {front text : List Char}

theorem sourceLines_ofList (htext : '\r' ∉ text) :
    sourceLines (.ofList text) = (Text.lines text).map .ofList := by
  rw [sourceLines, String.toList_ofList, Text.unifyNewlines_eq_self htext]

theorem sourceLines_ended (hfront : Text.EndsLine front) (htext : '\n' ∉ text)
    (hreturn : '\r' ∉ front ++ text) :
    sourceLines (.ofList (front ++ text) ++ "\n") =
      sourceLines (.ofList front) ++ [.ofList (text ++ ['\n'])] := by
  have hsource : String.ofList (front ++ text) ++ "\n" = .ofList (front ++ (text ++ ['\n'])) := by
    rw [← String.toList_inj]
    simp
  have hmore : '\r' ∉ front ++ (text ++ ['\n']) := by
    rw [← List.append_assoc, List.mem_append, not_or]
    exact ⟨hreturn, by decide⟩
  rw [List.mem_append, not_or] at hreturn
  rw [hsource, sourceLines_ofList hmore, sourceLines_ofList hreturn.1, Text.lines_append hfront,
    Text.lines_single htext, List.map_append]
  rfl

theorem sourceLines_unended (hfront : Text.EndsLine front) (hne : text ≠ []) (htext : '\n' ∉ text)
    (hreturn : '\r' ∉ front ++ text) :
    sourceLines (.ofList (front ++ text)) = sourceLines (.ofList front) ++ [.ofList text] := by
  have hparts := hreturn
  rw [List.mem_append, not_or] at hparts
  rw [sourceLines_ofList hreturn, sourceLines_ofList hparts.1, Text.lines_append hfront,
    Text.lines_unended hne htext, List.map_append]
  rfl

end LastLine

/-- **The last line feed of a source.**  Let a source with line feeds only compile with one more
line feed at its end.  If it ends with a slash, and the log tells that a statement has ended on its
last line, then it is not scanned without that line feed, since the character behind the slash is
missing.  In all other cases it compiles to the same statements and the same code. -/
theorem compile_withoutNewline (draws : Draws) {source : String} (hreturn : '\r' ∉ source.toList)
    (hcompile : (compile draws (source ++ "\n")).fault? = none) :
    (Exposed source.toList (sourceLines (source ++ "\n")).length
      (lex {} (sourceLines (source ++ "\n"))) →
        ∃ lexed, compile draws source = .unscanned lexed .missingCharacter) ∧
      (¬ Exposed source.toList (sourceLines (source ++ "\n")).length
        (lex {} (sourceLines (source ++ "\n"))) →
        (compile draws (source ++ "\n")).SameProgram (compile draws source)) := by
  obtain ⟨front, text, hparts, hfront, htext⟩ := Text.exists_lastLine source.toList
  obtain rfl : source = .ofList (front ++ text) := by rw [← hparts, String.ofList_toList]
  rw [String.toList_ofList] at hreturn
  have hended := sourceLines_ended hfront htext hreturn
  rw [compile, hended] at hcompile
  rw [String.toList_ofList, compile, compile, hended, List.length_append, List.length_singleton,
    Nat.add_comm (sourceLines (.ofList front)).length]
  by_cases hne : text = []
  · subst hne
    rw [List.append_nil]
    refine ⟨fun hexposed => ?_,
      fun _ => sameProgram_emptyLine draws (empty_not_mem_sourceLines _) hcompile⟩
    rcases hfront with rfl | hlast
    · exact absurd hexposed.1 (by decide)
    · exact absurd (hlast.symm.trans hexposed.1) (by decide)
  · have hlast : (front ++ text).getLast? = text.getLast? := by
      rw [List.getLast?_append, List.getLast?_eq_some_getLast hne, Option.some_or]
    rw [sourceLines_unended hfront hne htext hreturn, Exposed, hlast]
    exact compileLines_unended draws hne htext hcompile

theorem compile_withoutNewline_call :
    '\r' ∉ "var x: int;\nsyscall 60, x, e; // a/".toList ∧
      (compile (.ofList []) ("var x: int;\nsyscall 60, x, e; // a/" ++ "\n")).fault? = none ∧
      (compile (.ofList []) ("var x: int;\nsyscall 60, x, e; // a/" ++ "\n")).SameProgram
        (compile (.ofList []) "var x: int;\nsyscall 60, x, e; // a/") := by
  have hreturn : '\r' ∉ "var x: int;\nsyscall 60, x, e; // a/".toList := by decide
  have hcompile : (compile (.ofList []) ("var x: int;\nsyscall 60, x, e; // a/" ++ "\n")).fault? =
      none := by
    decide +kernel
  exact ⟨hreturn, hcompile,
    (compile_withoutNewline (.ofList []) hreturn hcompile).2 (by decide +kernel)⟩

/-- A word with a semicolon and a comment that ends with a slash compiles with a line feed behind it
and not without. -/
theorem compile_commentWithSlash :
    (compile (.ofList []) "x; // a/\n").fault? = none ∧
      (compile (.ofList []) "x; // a/").fault? = some .missingCharacter := by
  decide +kernel

end LineCompiler
