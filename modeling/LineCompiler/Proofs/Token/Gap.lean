import LineCompiler.Proofs.Token.Opener
import LineCompiler.Proofs.Token.Renumber

/-!
# Lines without code

A gap is a line of spaces, or of spaces and a comment.  The scan of a gap never fails.  It declares
nothing and leaves the open blocks as they are, and its first token, if it has one, is that of a
comment or of a name, which a reader passes over.  So a gap that is put between the lines of a
source takes part in nothing but the counting of lines (`inserted_scan`).
-/

namespace LineCompiler

/-- A line without code: spaces, and possibly a comment behind them. -/
structure Gap where
  indent : Nat
  comment : Option String
  /-- The comment goes to the end of its line. -/
  inLine : ∀ text ∈ comment, '\n' ∉ text.toList ∧ '\r' ∉ text.toList

namespace Gap

/-- The characters of a gap before its line feed. -/
def text (gap : Gap) : List Char :=
  List.replicate gap.indent ' ' ++ (gap.comment.map fun text => '/' :: '/' :: text.toList).getD []

/-- The line of a gap. -/
def line (gap : Gap) : String :=
  String.ofList (gap.text ++ ['\n'])

end Gap

/-- Tokens of a line that opens no statement and closes no block. -/
def PassedOver (tokens : List Token) : Prop :=
  ∀ token, tokens.head? = some token →
    ∃ kind value, token = .of kind value ∧ kind ≠ .symbol ∧ kind ≠ .keyword

/-! ## The scan of a gap -/

namespace Scan

private theorem passedOver_nameTokens (names : Names) (word : List Char) :
    PassedOver (nameTokens names word) := by
  intro token htoken
  have hmem := List.mem_of_head? htoken
  simp only [nameTokens, List.mem_append, List.mem_ite_nil_right, List.mem_singleton] at hmem
  rcases hmem with ((⟨-, rfl⟩ | ⟨-, rfl⟩) | ⟨-, rfl⟩) | ⟨-, rfl⟩ <;>
    exact ⟨_, _, rfl, by simp, by simp⟩

/-- **The scan of a gap.** -/
theorem outcome_scanLine_gap {line : SourceLine} {gap : Gap} (hline : line.content = gap.line)
    (names : Names) (blocks : Blocks) :
    ∃ tokens, PassedOver tokens ∧
      (scanLine names blocks line).outcome = .ok ⟨tokens, {}, blocks⟩ := by
  obtain ⟨indent, comment, hcomment⟩ := gap
  rw [scanLine, hline, Gap.line, String.toList_ofList, Gap.text, List.append_assoc, run_spaces]
  generalize (true && decide (indent = 0)) = first
  cases comment with
  | none =>
      -- The line feed is a word of its own, and is compared with the names.
      refine ⟨nameTokens names ['\n'], passedOver_nameTokens names _, ?_⟩
      cases first <;> rfl
  | some text =>
      refine ⟨[.of (.mark .comment) (.text "//"), .of .comment (.ofChars (text.toList ++ ['\n']))],
        ?_, rfl⟩
      intro token htoken
      cases htoken
      exact ⟨_, _, rfl, by simp, by simp⟩

end Scan

/-! ## A gap in a source -/

namespace Lexed

/-- Two scans of which the second has one line more, at an index, and is the same otherwise but for
the numbers and links of lines and the log. -/
structure Inserted (f : Atom → Atom) (index : Nat) (before after : Lexed) : Prop where
  lines : (after.lines.eraseIdx index).map (TokenLine.renumber id) =
    before.lines.map (TokenLine.renumber f)
  names : after.names = before.names
  fault : after.fault = before.fault.map (Fault.renumber f)
  between : ∀ line, after.lines[index]? = some line → PassedOver line.tokens

/-- **The scan of a source with a gap put in.** -/
theorem inserted_scan {f : Atom → Atom} {front back others : List SourceLine} {number : Atom}
    {gap : Gap}
    (hothers : others.map (SourceLine.renumber id) =
      front.map (SourceLine.renumber f) ++ { number, content := gap.line } ::
        back.map (SourceLine.renumber f)) (names : Names) (blocks : Blocks) :
    Inserted f front.length (scan names blocks (front ++ back)) (scan names blocks others) := by
  induction front generalizing others names blocks with
  | nil =>
      obtain ⟨other, rest, rfl, hother, hrest⟩ := List.map_eq_cons_iff.mp hothers
      have hcontent : other.content = gap.line := congrArg SourceLine.content hother
      obtain ⟨tokens, hpassed, houtcome⟩ := Scan.outcome_scanLine_gap hcontent names blocks
      have hnames : names.append {} = names := by simp [Names.append]
      obtain ⟨hlines, hsame, hfault⟩ := renumbered_scan hrest names blocks
      rw [scan_cons_ok houtcome, hnames]
      refine ⟨hlines, hsame, hfault, ?_⟩
      intro line hline
      cases hline
      exact hpassed
  | cons line front ih =>
      obtain ⟨other, rest, rfl, hother, hrest⟩ := List.map_eq_cons_iff.mp hothers
      have houtcome := Scan.outcome_scanLine_of_renumber hother names blocks
      cases hline : (Scan.scanLine names blocks line).outcome with
      | error fault =>
          rw [hline] at houtcome
          rw [List.cons_append, scan_cons_error hline, scan_cons_error houtcome]
          exact ⟨rfl, rfl, rfl, fun _ => nofun⟩
      | ok scanned =>
          rw [hline] at houtcome
          obtain ⟨hlines, hnames, hfault, hbetween⟩ :=
            ih hrest (names.append scanned.declared) scanned.blocks
          rw [List.cons_append, scan_cons_ok hline, scan_cons_ok houtcome]
          refine ⟨?_, hnames, hfault, hbetween⟩
          simp only [List.map_cons, List.length_cons, List.eraseIdx_cons_succ, hlines,
            TokenLine.renumber, hother]

end Lexed

/-! ## Numbers behind a gap -/

/-- The number of a line after another line was put behind line `count`. -/
def pastLine (count : Nat) : Atom → Atom
  | .integer number => .integer (if number ≤ count then number else number + 1)
  | number => number

namespace SourceLine

/-- Lines with their numbers, which start with the given one. -/
def numbered (number : Nat) : List String → List SourceLine
  | [] => []
  | content :: rest => { number := .integer number, content } :: numbered (number + 1) rest

theorem numbered_append (number : Nat) (front back : List String) :
    numbered number (front ++ back) =
      numbered number front ++ numbered (number + front.length) back := by
  induction front generalizing number with
  | nil => rfl
  | cons content rest ih =>
      have hnumber : number + 1 + rest.length = number + (content :: rest).length := by
        rw [List.length_cons]
        omega
      rw [List.cons_append, numbered, ih, numbered, hnumber, List.cons_append]

private theorem length_numbered (number : Nat) (lines : List String) :
    (numbered number lines).length = lines.length := by
  induction lines generalizing number with
  | nil => rfl
  | cons content rest ih => rw [numbered, List.length_cons, List.length_cons, ih]

theorem map_renumber_linkFrom (number : Nat) (previous : Option Nat) {lines : List String}
    (hlines : "" ∉ lines) :
    (linkFrom number previous lines).map (renumber id) = numbered number lines := by
  induction lines generalizing number previous with
  | nil => rfl
  | cons content rest ih =>
      rw [List.mem_cons, not_or] at hlines
      rw [linkFrom, if_neg (Ne.symm hlines.1), List.map_cons, ih _ _ hlines.2, numbered]
      rfl

private theorem numbered_before {count number : Nat} {lines : List String}
    (hnumber : number + lines.length ≤ count + 1) :
    (numbered number lines).map (renumber (pastLine count)) = numbered number lines := by
  induction lines generalizing number with
  | nil => rfl
  | cons content rest ih =>
      rw [List.length_cons] at hnumber
      have hfirst : pastLine count (.integer number) = .integer number :=
        congrArg Atom.integer (if_pos (by omega))
      rw [numbered, List.map_cons, ih (by omega), renumber, hfirst]

private theorem numbered_after {count number : Nat} (hnumber : count < number)
    (lines : List String) :
    (numbered number lines).map (renumber (pastLine count)) = numbered (number + 1) lines := by
  induction lines generalizing number with
  | nil => rfl
  | cons content rest ih =>
      have hfirst : pastLine count (.integer number) = .integer (number + 1 : Nat) :=
        congrArg Atom.integer ((if_neg (by omega)).trans (by omega))
      rw [numbered, List.map_cons, ih (by omega), renumber, hfirst, numbered]

end SourceLine

open SourceLine in
/-- **A gap is not seen by the scan.**  The lines are cut from a source behind one of its lines. -/
theorem inserted_lex {front back : List String} (hlines : "" ∉ front ++ back) (gap : Gap)
    (names : Names) :
    Lexed.Inserted (pastLine front.length) front.length (lex names (front ++ back))
      (lex names (front ++ gap.line :: back)) := by
  have hgap : "" ≠ gap.line := fun heq => by
    simpa [Gap.line] using congrArg String.toList heq
  have hothers : "" ∉ front ++ gap.line :: back := by
    simp only [List.mem_append, List.mem_cons, not_or] at hlines ⊢
    exact ⟨hlines.1, hgap, hlines.2⟩
  have hbefore := map_renumber_linkFrom 1 none hlines
  have hafter := map_renumber_linkFrom 1 none hothers
  rw [numbered_append] at hbefore hafter
  obtain ⟨frontLines, backLines, hlink, hfront, hback⟩ := List.map_eq_append_iff.mp hbefore
  have hlength : frontLines.length = front.length := by
    rw [← length_numbered 1 front, ← hfront, List.length_map]
  have hmap : ∀ (lines : List SourceLine) (f : Atom → Atom),
      lines.map (renumber f) = (lines.map (renumber id)).map (renumber f) := by
    intro lines f
    rw [List.map_map]
    rfl
  have hsplit : (linkFrom 1 none (front ++ gap.line :: back)).map (renumber id) =
      frontLines.map (renumber (pastLine front.length)) ++
        { number := .integer (1 + front.length : Nat), content := gap.line } ::
          backLines.map (renumber (pastLine front.length)) := by
    rw [hafter, hmap frontLines, hmap backLines, hfront, hback, numbered_before (by omega),
      numbered_after (by omega), numbered]
  have hinserted := Lexed.inserted_scan hsplit names {}
  rwa [hlength, ← hlink] at hinserted

end LineCompiler
