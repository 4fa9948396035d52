import LineCompiler.Proofs.Insertion
import LineCompiler.Proofs.Program.Shape

/-!
# A line in place of another

The scan of a source can be cut between two of its lines (`scan_append`), and at a line that is not
empty the other lines are the same whatever its content is (`exists_lex_eq_join`).  So if one line
is put in place of another and leaves the same names and blocks, no other line is scanned in another
way (`replaced_join`).  If the program that is read stays the same too, then so does the code
(`sameProgram_compileLines`).
-/

namespace LineCompiler

namespace Lexed

variable {names : Names} {blocks : Blocks} {front back : List SourceLine} {line : SourceLine}

/-! ## Cutting a scan -/

/-- What two scans have found, one after the other. -/
def join (before after : Lexed) : Lexed :=
  { after with
    lines := before.lines ++ after.lines
    notices := before.notices ++ after.notices }

/-- **The scan of a source can be cut** behind lines that are scanned without a fault. -/
theorem scan_append (hfront : (scan names blocks front).fault = none) :
    ∃ last, ∀ back, scan names blocks (front ++ back) =
      (scan names blocks front).join (scan (scan names blocks front).names last back) := by
  induction front generalizing names blocks with
  | nil => exact ⟨blocks, fun back => rfl⟩
  | cons line rest ih =>
      cases hline : (Scan.scanLine names blocks line).outcome with
      | error fault =>
          rw [scan_cons_error hline] at hfront
          cases hfront
      | ok scanned =>
          rw [scan_cons_ok hline] at hfront
          obtain ⟨last, hlast⟩ := ih hfront
          refine ⟨last, fun back => ?_⟩
          rw [List.cons_append, scan_cons_ok hline, scan_cons_ok hline, hlast]
          simp only [join, List.cons_append, List.append_assoc]

theorem fault_of_append (hscan : (scan names blocks (front ++ back)).fault = none) :
    (scan names blocks front).fault = none := by
  induction front generalizing names blocks with
  | nil => rfl
  | cons line rest ih =>
      cases hline : (Scan.scanLine names blocks line).outcome with
      | error fault =>
          rw [List.cons_append, scan_cons_error hline] at hscan
          cases hscan
      | ok scanned =>
          rw [List.cons_append, scan_cons_ok hline] at hscan
          rw [scan_cons_ok hline]
          exact ih hscan

theorem scanned_of_fault (hscan : (scan names blocks (line :: back)).fault = none) :
    ∃ scanned, (Scan.scanLine names blocks line).outcome = .ok scanned := by
  cases hline : (Scan.scanLine names blocks line).outcome with
  | error fault =>
      rw [scan_cons_error hline] at hscan
      cases hscan
  | ok scanned => exact ⟨scanned, rfl⟩

/-- Two scans that differ in one line only, and in their logs. -/
structure Replaced (front : List TokenLine) (line other : TokenLine) (back : List TokenLine)
    (before after : Lexed) : Prop where
  lines : before.lines = front ++ line :: back
  others : after.lines = front ++ other :: back
  names : after.names = before.names
  fault : after.fault = before.fault

/-- A line that leaves the same names and blocks as another one. -/
theorem replaced_join (before : Lexed) {last : Blocks} {other : SourceLine}
    {scanned replaced : Scan.Scanned}
    (hline : (Scan.scanLine before.names last line).outcome = .ok scanned)
    (hother : (Scan.scanLine before.names last other).outcome = .ok replaced)
    (hdeclared : replaced.declared = scanned.declared) (hblocks : replaced.blocks = scanned.blocks)
    (back : List SourceLine) :
    Replaced before.lines ⟨line, scanned.tokens⟩ ⟨other, replaced.tokens⟩
      (scan (before.names.append scanned.declared) scanned.blocks back).lines
      (before.join (scan before.names last (line :: back)))
        (before.join (scan before.names last (other :: back))) := by
  rw [scan_cons_ok hline, scan_cons_ok hother, hdeclared, hblocks]
  exact ⟨rfl, rfl, rfl, rfl⟩

end Lexed

/-! ## Links -/

namespace SourceLine

/-- A line that is not empty counts for its neighbours as any other one. -/
theorem exists_follower (number : Nat) (front back : List String) :
    ∃ next, ∀ content, content ≠ "" → follower number (front ++ content :: back) = next := by
  induction front generalizing number with
  | nil => exact ⟨_, fun content hcontent => if_neg hcontent⟩
  | cons first rest ih =>
      obtain ⟨next, hnext⟩ := ih (number + 1)
      refine ⟨if first = "" then next.or (some (number + 1)) else some (number + 1),
        fun content hcontent => ?_⟩
      rw [List.cons_append, follower, hnext content hcontent]

/-- Lines of which one may have any content. -/
theorem exists_linkFrom (number : Nat) (previous : Option Nat) (front back : List String) :
    ∃ (frontLines : List SourceLine) (line : SourceLine),
      line.number = .integer (number + front.length : Nat) ∧
      (∀ other ∈ frontLines, ∃ count < number + front.length, other.number = .integer count) ∧
      ∀ content, content ≠ "" →
        linkFrom number previous (front ++ content :: back) = frontLines ++ { line with content } ::
          linkFrom (number + front.length + 1) (some (number + front.length)) back := by
  induction front generalizing number previous with
  | nil =>
      exact ⟨[], { number := .integer number, content := "", previous,
                   next := follower number back }, rfl, by simp,
        fun content hcontent => if_neg hcontent⟩
  | cons first rest ih =>
      have hcount : number + (first :: rest).length = number + 1 + rest.length := by
        rw [List.length_cons]
        omega
      rw [hcount]
      by_cases hfirst : first = ""
      · obtain ⟨frontLines, line, hnumber, hnumbers, hlines⟩ := ih (number + 1) previous
        refine ⟨frontLines, line, hnumber, hnumbers, fun content hcontent => ?_⟩
        rw [List.cons_append, linkFrom, if_pos hfirst, hlines content hcontent]
      · obtain ⟨frontLines, line, hnumber, hnumbers, hlines⟩ := ih (number + 1) (some number)
        obtain ⟨next, hnext⟩ := exists_follower number rest back
        refine ⟨{ number := .integer number, content := first, previous, next } :: frontLines,
          line, hnumber, List.forall_mem_cons.mpr ⟨⟨number, by omega, rfl⟩, hnumbers⟩,
          fun content hcontent => ?_⟩
        rw [List.cons_append, linkFrom, if_neg hfirst, hlines content hcontent,
          hnext content hcontent, List.cons_append]

end SourceLine

namespace Lexed

/-- **The scan of a source, cut at one of its lines**, which may have any content but none. -/
theorem exists_lex_eq_join (names : Names) {front back : List String} {content : String}
    (hcontent : content ≠ "") (hscan : (lex names (front ++ content :: back)).fault = none) :
    ∃ (frontLines : List SourceLine) (line : SourceLine) (last : Blocks),
      line.number = .integer (1 + front.length : Nat) ∧
      (∀ other ∈ frontLines, ∃ count < 1 + front.length, other.number = .integer count) ∧
      ∀ other, other ≠ "" → lex names (front ++ other :: back) =
        (scan names {} frontLines).join (scan (scan names {} frontLines).names last
          ({ line with content := other } ::
            SourceLine.linkFrom (1 + front.length + 1) (some (1 + front.length)) back)) := by
  obtain ⟨frontLines, line, hnumber, hnumbers, hlines⟩ :=
    SourceLine.exists_linkFrom 1 none front back
  have hfront : (scan names {} frontLines).fault = none := by
    rw [lex, SourceLine.link, hlines content hcontent] at hscan
    exact fault_of_append hscan
  obtain ⟨last, hlast⟩ := scan_append hfront
  refine ⟨frontLines, line, last, hnumber, hnumbers, fun other hother => ?_⟩
  rw [lex, SourceLine.link, hlines other hother, hlast]

open SourceLine in
/-- The links of lines have no part in the scan of a source. -/
theorem renumbered_lex {lines : List String} (hlines : "" ∉ lines) (names : Names) :
    Renumbered id (scan names {} (numbered 1 lines)) (lex names lines) := by
  refine renumbered_scan ?_ names {}
  rw [← map_renumber_linkFrom 1 none hlines, List.map_map]
  rfl

theorem Renumbered.fault_eq {before after : Lexed} (hrenumbered : before.Renumbered id after) :
    after.fault = before.fault := by
  rw [hrenumbered.fault]
  cases before.fault <;> simp

theorem Renumbered.read_eq {before after : Lexed} (hrenumbered : before.Renumbered id after) :
    Reader.read after.lines = Reader.read before.lines := by
  have heffects := congrArg (List.map Reader.effect) hrenumbered.lines
  rw [List.map_map, List.map_map] at heffects
  exact Reader.read_congr heffects

end Lexed

/-! ## Programs -/

/-- Two compilations that succeed with the same program and the same code. -/
inductive Compilation.SameProgram : Compilation → Compilation → Prop
  | generated (count otherCount : Nat) (lexed otherLexed : Lexed) (program : Program)
      (sections : Sections) :
      SameProgram (.generated count lexed program sections none)
        (.generated otherCount otherLexed program sections none)

theorem sameProgram_compileLines (draws : Draws) {lines others : List String}
    (hlines : (compileLines draws lines).fault? = none) (hscan : (lex {} others).fault = none)
    (hnames : (lex {} others).names = (lex {} lines).names)
    (hread : Reader.read (lex {} others).lines = Reader.read (lex {} lines).lines) :
    (compileLines draws lines).SameProgram (compileLines draws others) := by
  cases hfault : (lex {} lines).fault with
  | some fault =>
      rw [compileLines_of_fault draws hfault] at hlines
      cases hlines
  | none =>
      cases hstatements : Reader.read (lex {} lines).lines with
      | error fault =>
          rw [compileLines_of_unread draws hfault hstatements] at hlines
          cases hlines
      | ok statements =>
          let program : Program := { statements, names := (lex {} lines).names }
          rw [hstatements] at hread
          rw [compileLines_of_read draws program hfault hstatements rfl] at hlines ⊢
          rw [compileLines_of_read draws program hscan hread hnames.symm,
            show (Generate.program draws program).fault = none from hlines]
          exact .generated ..

theorem lex_fault_of_compileLines {draws : Draws} {lines : List String}
    (hlines : (compileLines draws lines).fault? = none) : (lex {} lines).fault = none := by
  cases hfault : (lex {} lines).fault with
  | none => rfl
  | some fault =>
      rw [compileLines_of_fault draws hfault] at hlines
      cases hlines

end LineCompiler
