import Mathlib.Data.List.ModifyLast
import LineCompiler.Proofs.Token.Renumber
import LineCompiler.Session

/-!
# Where a scan fails

A scan that fails has done what the scan of the lines before the failing one does, and no more
(`failure_lex`).  Two traces of the failing line are left: the last line that was kept is linked to
it, and the log goes on with its notices.  The lines behind it are not looked at.
-/

namespace LineCompiler

/-! ## Links to a line that is added -/

/-- A line that is followed by another line. -/
def SourceLine.linkedTo (number : Nat) (line : SourceLine) : SourceLine :=
  { line with next := some number }

/-- A token line that is followed by another line. -/
def TokenLine.linkedTo (number : Nat) (line : TokenLine) : TokenLine :=
  { line with line := line.line.linkedTo number }

namespace SourceLine

variable {number : Nat} {previous : Option Nat} {front : List String} {content : String}

/-- If no line of `front` is kept, the line behind `front` is the next one. -/
theorem follower_append_of_empty (hfront : linkFrom number previous front = [])
    (hcontent : content ≠ "") (count : Nat) (back : List String) :
    follower count (front ++ content :: back) = some (count + front.length + 1) := by
  induction front generalizing number count with
  | nil => exact if_neg hcontent
  | cons text front ih =>
      by_cases htext : text = ""
      · rw [linkFrom, if_pos htext] at hfront
        rw [List.cons_append, follower, if_pos htext, ih hfront, Option.some_or, List.length_cons]
        congr 1
        omega
      · rw [linkFrom, if_neg htext] at hfront
        exact nomatch hfront

/-- If a line of `front` is kept, what stands behind `front` is not the next line. -/
theorem follower_append_of_kept (hfront : linkFrom number previous front ≠ []) (count : Nat)
    (back : List String) :
    follower count (front ++ back) = follower count front := by
  induction front generalizing number count with
  | nil => exact absurd rfl hfront
  | cons text front ih =>
      by_cases htext : text = ""
      · rw [linkFrom, if_pos htext] at hfront
        rw [List.cons_append, follower, follower, if_pos htext, if_pos htext, ih hfront]
      · rw [List.cons_append, follower, follower, if_neg htext, if_neg htext]

/-- A line that is added behind others is linked to by the last line that is kept. -/
theorem linkFrom_append (hcontent : content ≠ "") (number : Nat) (previous : Option Nat)
    (front : List String) :
    ∃ before, ∀ back, ∃ next after, linkFrom number previous (front ++ content :: back) =
      (linkFrom number previous front).modifyLast (linkedTo (number + front.length)) ++
        { number := .integer (number + front.length : Nat), content, previous := before,
          next } :: after := by
  induction front generalizing number previous with
  | nil => exact ⟨previous, fun back => ⟨follower number back, _, if_neg hcontent⟩⟩
  | cons text front ih =>
      have hnumber : number + (text :: front).length = number + 1 + front.length := by
        rw [List.length_cons]
        omega
      rw [hnumber]
      by_cases htext : text = ""
      · obtain ⟨before, hlink⟩ := ih (number + 1) previous
        refine ⟨before, fun back => ?_⟩
        simpa only [List.cons_append, linkFrom, if_pos htext] using hlink back
      · obtain ⟨before, hlink⟩ := ih (number + 1) (some number)
        refine ⟨before, fun back => ?_⟩
        obtain ⟨next, after, heq⟩ := hlink back
        refine ⟨next, after, ?_⟩
        simp only [List.cons_append, linkFrom, if_neg htext, heq]
        by_cases hkept : linkFrom (number + 1) (some number) front = []
        · -- The line is the last one that is kept, so its own link changes.
          rw [follower_append_of_empty hkept hcontent, hkept,
            show number + front.length + 1 = number + 1 + front.length from by omega]
          rfl
        · rw [follower_append_of_kept hkept, ← List.singleton_append,
            ← @List.singleton_append _ _ (linkFrom _ _ front),
            List.modifyLast_append_of_right_ne_nil _ _ _ hkept, List.append_assoc]

private theorem length_modifyLast {α : Type} (f : α → α) (items : List α) :
    (items.modifyLast f).length = items.length := by
  rcases List.eq_nil_or_concat items with rfl | ⟨front, last, rfl⟩
  · rfl
  · rw [List.concat_eq_append, List.modifyLast_concat]
    simp

/-- Where a kept line stands in the source. -/
theorem exists_of_linkFrom {lines : List String} {first rest : List SourceLine} {line : SourceLine}
    (hlink : linkFrom number previous lines = first ++ line :: rest) :
    ∃ front content back, lines = front ++ content :: back ∧ content ≠ "" ∧
      first.length = (linkFrom number previous front).length := by
  induction lines generalizing number previous first with
  | nil => simp [linkFrom] at hlink
  | cons text lines ih =>
      by_cases htext : text = ""
      · rw [linkFrom, if_pos htext] at hlink
        obtain ⟨front, content, back, rfl, hcontent, hlength⟩ := ih hlink
        refine ⟨text :: front, content, back, rfl, hcontent, ?_⟩
        rw [linkFrom, if_pos htext, hlength]
      · rw [linkFrom, if_neg htext] at hlink
        cases first with
        | nil => exact ⟨[], text, lines, rfl, htext, rfl⟩
        | cons head first =>
            obtain ⟨front, content, back, rfl, hcontent, hlength⟩ := ih (List.cons.inj hlink).2
            refine ⟨text :: front, content, back, rfl, hcontent, ?_⟩
            rw [linkFrom, if_neg htext, List.length_cons, List.length_cons, hlength]

/-- **A kept line and those before it.**  The lines behind it have no part in them but for the link
of the line itself. -/
theorem linkFrom_split {lines : List String} {first rest : List SourceLine} {line : SourceLine}
    (hlink : linkFrom number previous lines = first ++ line :: rest) :
    ∃ front content back, lines = front ++ content :: back ∧
      SourceLine.renumber id { number := .integer (number + front.length : Nat), content } =
        line.renumber id ∧
      first = (linkFrom number previous front).modifyLast (linkedTo (number + front.length)) ∧
      ∃ other after, other.renumber id = line.renumber id ∧
        linkFrom number previous (front ++ [content]) = first ++ other :: after := by
  obtain ⟨front, content, back, rfl, hcontent, hlength⟩ := exists_of_linkFrom hlink
  obtain ⟨before, happend⟩ := linkFrom_append hcontent number previous front
  obtain ⟨next, after, heq⟩ := happend back
  rw [hlink] at heq
  obtain ⟨rfl, hrest⟩ := List.append_inj heq (hlength.trans (length_modifyLast _ _).symm)
  obtain ⟨rfl, -⟩ := List.cons.inj hrest
  obtain ⟨otherNext, otherAfter, hother⟩ := happend []
  exact ⟨front, content, back, rfl, rfl, rfl, _, otherAfter, by rfl, hother⟩

end SourceLine

/-! ## The scan of a line that fails -/

namespace Scan

theorem Result.renumber_id (result : Result) : result.renumber id = result := by
  obtain ⟨ends, outcome⟩ := result
  cases outcome with
  | error fault => exact congrArg (Result.mk ends) (congrArg Except.error fault.renumber_id)
  | ok scanned => rfl

/-- The links of a line have no part in its scan. -/
theorem scanLine_congr {line other : SourceLine} (hother : other.renumber id = line.renumber id)
    (names : Names) (blocks : Blocks) :
    scanLine names blocks other = scanLine names blocks line := by
  rw [← (scanLine names blocks other).renumber_id, ← scanLine_renumber, hother, scanLine_renumber,
    Result.renumber_id]

/-- A refusal tells the number of the line. -/
theorem renumber_of_scanLine {names : Names} {blocks : Blocks} {line : SourceLine} {fault : Fault}
    (hline : (scanLine names blocks line).outcome = .error fault) :
    fault.renumber (fun _ => line.number) = fault := by
  have hsame : scanLine names blocks (line.renumber fun _ => line.number) =
      scanLine names blocks line :=
    scanLine_congr (by rfl) names blocks
  have houtcome := congrArg Result.outcome hsame
  rw [scanLine_renumber, Result.renumber, hline] at houtcome
  exact Except.error.inj houtcome

end Scan

namespace Lexed

variable {names : Names} {blocks : Blocks} {lines : List SourceLine}

/-- **How a scan fails**: as the scan of the lines before the failing one leaves it, but for the
notices and the fault.  No other link of the failing line and no other lines behind it make a
difference. -/
theorem scan_failure {fault : Fault} (hfault : (scan names blocks lines).fault = some fault) :
    ∃ first line rest last, lines = first ++ line :: rest ∧ (scan names blocks first).fault = none ∧
      (Scan.scanLine (scan names blocks first).names last line).outcome = .error fault ∧
      ∀ other after, other.renumber id = line.renumber id →
        scan names blocks (first ++ other :: after) =
          { scan names blocks first with
            notices := (scan names blocks first).notices ++
              List.replicate (Scan.scanLine (scan names blocks first).names last line).ends
                (endNotice line.number)
            fault := some fault } := by
  induction lines generalizing names blocks with
  | nil => exact nomatch hfault
  | cons line rest ih =>
      cases hline : (Scan.scanLine names blocks line).outcome with
      | error found =>
          rw [scan_cons_error hline] at hfault
          cases hfault
          -- The scan stops here, before it looks at any link or at the lines behind.
          refine ⟨[], line, rest, blocks, rfl, rfl, hline, fun other after hother => ?_⟩
          have hsame := Scan.scanLine_congr hother names blocks
          have hnumber := congrArg SourceLine.number hother
          rw [List.nil_append, scan_cons_error (hsame ▸ hline), hsame,
            show other.number = line.number from hnumber]
          rfl
      | ok scanned =>
          rw [scan_cons_ok hline] at hfault
          obtain ⟨first, failing, after, last, rfl, hfirst, houtcome, hscan⟩ := ih hfault
          refine ⟨line :: first, failing, after, last, rfl, ?_, ?_, fun other others hother => ?_⟩
          · rw [scan_cons_ok hline]
            exact hfirst
          · rw [scan_cons_ok hline]
            exact houtcome
          · rw [List.cons_append, scan_cons_ok hline, scan_cons_ok hline, hscan other others hother]
            simp only [List.append_assoc]

theorem length_lines_of_ok (hok : (scan names blocks lines).fault = none) :
    (scan names blocks lines).lines.length = lines.length := by
  induction lines generalizing names blocks with
  | nil => rfl
  | cons line rest ih =>
      cases hline : (Scan.scanLine names blocks line).outcome with
      | error fault =>
          rw [scan_cons_error hline] at hok
          exact nomatch hok
      | ok scanned =>
          rw [scan_cons_ok hline] at hok ⊢
          exact congrArg (· + 1) (ih hok)

/-- The link of the last line has no part in a scan that succeeds. -/
theorem scan_modifyLast {number : Nat}
    (hok : (scan names blocks (lines.modifyLast (SourceLine.linkedTo number))).fault = none) :
    scan names blocks (lines.modifyLast (SourceLine.linkedTo number)) =
      { scan names blocks lines with
        lines := (scan names blocks lines).lines.modifyLast (TokenLine.linkedTo number) } := by
  induction lines generalizing names blocks with
  | nil => rfl
  | cons line rest ih =>
      have hsame : Scan.scanLine names blocks (line.linkedTo number) =
          Scan.scanLine names blocks line :=
        Scan.scanLine_congr (by rfl) names blocks
      cases rest with
      | nil =>
          rw [show [line].modifyLast (SourceLine.linkedTo number) = [line.linkedTo number] from rfl]
            at hok ⊢
          cases hline : (Scan.scanLine names blocks line).outcome with
          | error fault =>
              rw [scan_cons_error (hsame ▸ hline)] at hok
              exact nomatch hok
          | ok scanned =>
              rw [scan_cons_ok (hsame ▸ hline), scan_cons_ok hline, hsame]
              rfl
      | cons second rest =>
          have hsource := List.modifyLast_append_of_right_ne_nil (SourceLine.linkedTo number) [line]
            (second :: rest) (List.cons_ne_nil _ _)
          rw [List.singleton_append] at hsource
          rw [hsource] at hok ⊢
          cases hline : (Scan.scanLine names blocks line).outcome with
          | error fault =>
              rw [List.singleton_append, scan_cons_error hline] at hok
              exact nomatch hok
          | ok scanned =>
              rw [List.singleton_append, scan_cons_ok hline] at hok ⊢
              have hrest := ih hok
              have hlength := length_lines_of_ok ((congrArg Lexed.fault hrest).symm.trans hok)
              have hlines := List.ne_nil_of_length_eq_add_one hlength
              have htokens := List.modifyLast_append_of_right_ne_nil (TokenLine.linkedTo number)
                [⟨line, scanned.tokens⟩] _ hlines
              rw [List.singleton_append] at htokens
              rw [hrest, scan_cons_ok hline, htokens]
              rfl

end Lexed

/-! ## The scan of a source that fails -/

open Lexed in
private theorem lex_failure {names : Names} {source : List String} {fault : Fault}
    (hfault : (lex names source).fault = some fault) :
    ∃ front content back, source = front ++ content :: back ∧
      lex names source = lex names (front ++ [content]) ∧ (lex names front).fault = none ∧
      ∃ blocks,
        let result := Scan.scanLine (lex names front).names blocks
          { number := .integer (front.length + 1 : Nat), content }
        result.outcome = .error fault ∧
          lex names source =
            { lines := (lex names front).lines.modifyLast (TokenLine.linkedTo (front.length + 1))
              names := (lex names front).names
              notices := (lex names front).notices ++
                List.replicate result.ends (endNotice (.integer (front.length + 1 : Nat)))
              fault := some fault } := by
  obtain ⟨first, line, rest, last, hlines, hfirst, houtcome, hscan⟩ := scan_failure hfault
  obtain ⟨front, content, back, rfl, hline, rfl, other, after, hother, hcut⟩ :=
    SourceLine.linkFrom_split hlines
  rw [Nat.add_comm 1] at hline hfirst houtcome hscan hlines hcut
  have hbefore := scan_modifyLast hfirst
  have hnumber : line.number = .integer (front.length + 1 : Nat) :=
    (congrArg SourceLine.number hline).symm
  have hsame := Scan.scanLine_congr hline (lex names front).names last
  have hcutoff : lex names (front ++ content :: back) = lex names (front ++ [content]) := by
    rw [lex, lex, hlines, show SourceLine.link (front ++ [content]) = _ from hcut,
      hscan line rest rfl, hscan other after hother]
  refine ⟨front, content, back, rfl, hcutoff, (congrArg Lexed.fault hbefore).symm.trans hfirst,
    last, ?_, ?_⟩
  · rw [hbefore] at houtcome
    rw [hsame]
    exact houtcome
  · rw [lex, hlines, hscan line rest rfl, hbefore, hsame, hnumber]
    rfl

open Lexed in
/-- **A failing line leaves no trace.**  If a scan fails, whatever lines and names a session has
gathered before, there is a line at which it fails.  The scan of the lines before it succeeds and
gathers the same names and the same token lines, of which only the last is linked to the failing
line in addition.  The log is that of the lines before it, followed by the notices of the failing
line and of its fault, which tells the number of that line if it tells any.  The lines behind the
failing one make no difference. -/
theorem failure_lex {session : Session} {source : List String} {fault : Fault}
    (hfault : (session.lex source).1.fault = some fault) :
    ∃ front content back, source = front ++ content :: back ∧
      session.lex source = session.lex (front ++ [content]) ∧
      (session.lex front).1.fault = none ∧
      (session.lex source).2.names = (session.lex front).2.names ∧
      (∃ gathered, (session.lex front).2.lines = session.lines ++ gathered ∧
        (session.lex source).2.lines =
          session.lines ++ gathered.modifyLast (TokenLine.linkedTo (front.length + 1))) ∧
      ∃ blocks,
        let result := Scan.scanLine (session.lex front).2.names blocks
          { number := .integer (front.length + 1 : Nat), content }
        result.outcome = .error fault ∧
          fault.renumber (fun _ => .integer (front.length + 1 : Nat)) = fault ∧
          (session.lex source).1.log = (session.lex front).1.log ++
            (List.replicate result.ends (endNotice (.integer (front.length + 1 : Nat))) ++
              fault.notices) := by
  obtain ⟨front, content, back, rfl, hcut, hbefore, blocks, houtcome, hfailed⟩ := lex_failure hfault
  have hlog : (session.lex front).1.log = (lex session.names front).notices := by
    simp [Lexed.log, Session.lex, hbefore]
  refine ⟨front, content, back, rfl, ?_, hbefore, ?_, ⟨(lex session.names front).lines, rfl, ?_⟩,
    blocks, houtcome, Scan.renumber_of_scanLine houtcome, ?_⟩
  · rw [Session.lex, hcut]
    rfl
  · rw [Session.lex, hfailed]
    rfl
  · rw [Session.lex, hfailed]
  · rw [hlog, Session.lex, hfailed, ← List.append_assoc]
    rfl

theorem failure_lex_elseWithoutIf :
    let source := ["const a: int = 1;\n", "", "else x;\n", "var b: int = a;\n"]
    (lex { constants := ["c"] } source).fault = some (.rejected (.elseWithoutIf (.integer 3))) ∧
      ∃ front content back, source = front ++ content :: back ∧
        (lex { constants := ["c"] } front).fault = none ∧
        (lex { constants := ["c"] } source).names = (lex { constants := ["c"] } front).names := by
  intro source
  have hfault : (lex { constants := ["c"] } source).fault =
      some (.rejected (.elseWithoutIf (.integer 3))) := by
    decide +kernel
  obtain ⟨front, content, back, hsource, -, hbefore, hnames, -⟩ :=
    @failure_lex { names := { constants := ["c"] }, draws := .ofList [] } source _ hfault
  exact ⟨hfault, front, content, back, hsource, hbefore, hnames⟩

end LineCompiler
