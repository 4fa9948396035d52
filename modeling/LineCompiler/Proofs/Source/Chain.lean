import Mathlib.Data.List.Chain
import LineCompiler.Proofs.Token.Failure

/-!
# The chain of kept lines

`SourceLine.link` gives every kept line its two neighbours at once.  A source can also be taken in
line by line: each line, as it comes, becomes the next line of the last kept line, before it is
known whether the line itself is kept.  An empty line so takes a place that is not its own, and
gives it up when a kept line comes; only the empty lines at the end of the source hold on to it.

`Chain.receive` is one such step.  It keeps the invariant `Linked`, which says of the lines received
so far that they form a doubly linked list (`linked_receive`), and a whole run of steps gives the
lines of `link` (`lines_receiveAll`).  So the lines of every source that is scanned to its end are
linked (`linked_lex`).
-/

namespace LineCompiler

/-! ## Linked lines -/

/-- Two kept lines that stand side by side, each with the number of the other. -/
def SourceLine.Adjacent (earlier later : SourceLine) : Prop :=
  ∃ m n : Nat, earlier.number = .integer m ∧ later.number = .integer n ∧
    earlier.next = some n ∧ later.previous = some m

/-- The lines of a source with content, each with its position, which counts from one. -/
def numbered (source : List String) : List (Atom × String) :=
  ((source.zipIdx 1).filter fun entry => entry.1 ≠ "").map fun entry => (.integer entry.2, entry.1)

/-- The kept lines of a source form a doubly linked list. -/
structure Linked (source : List String) (kept : List SourceLine) : Prop where
  entries : kept.map (fun line => (line.number, line.content)) = numbered source
  first : ∀ line, kept.head? = some line → line.previous = none
  adjacent : kept.IsChain SourceLine.Adjacent
  /-- Behind the last kept line stands the last of the empty lines that end the source. -/
  last : ∀ line, kept.getLast? = some line →
    line.next = if source.getLast? = some "" then some source.length else none

theorem linked_nil : Linked [] [] where
  entries := rfl
  first := by simp
  adjacent := List.isChain_nil
  last := by simp

theorem numbered_append (source : List String) (content : String) :
    numbered (source ++ [content]) =
      numbered source ++
        (if content = "" then [] else [(.integer (source.length + 1 : Nat), content)]) := by
  unfold numbered
  rw [List.zipIdx_append, List.filter_append, List.map_append]
  congr 1
  by_cases hempty : content = ""
  · simp [hempty]
  · simp [hempty, Nat.add_comm]

/-! ## One line after another -/

/-- The kept lines of a source that is still coming in. -/
inductive Chain where
  | empty
  /-- The last kept line is the one with the given number. -/
  | upTo (before : List SourceLine) (number : Nat) (last : SourceLine)
      (hnumber : last.number = .integer number)

namespace Chain

/-- The kept lines. -/
def lines : Chain → List SourceLine
  | .empty => []
  | .upTo before _ last _ => before ++ [last]

/-- The chain after line `number`, which is linked behind the last kept line and then kept if it has
content. -/
def receive (number : Nat) (content : String) : Chain → Chain
  | .empty =>
      if content = "" then .empty
      else .upTo [] number { number := .integer number, content } rfl
  | .upTo before position last hposition =>
      if content = "" then .upTo before position (last.linkedTo number) hposition
      else
        .upTo (before ++ [last.linkedTo number]) number
          { number := .integer number, content, previous := some position } rfl

/-- The chain after more lines, the first of which comes behind line `number`. -/
def receiveAll (number : Nat) (chain : Chain) : List String → Chain
  | [] => chain
  | content :: rest => receiveAll (number + 1) (chain.receive (number + 1) content) rest

/-! ## What a step preserves -/

section Last

variable {front : List SourceLine} {last : SourceLine}

/-- Another next line for the last of some lines leaves the links between them. -/
theorem isChain_linkedTo (hchain : (front ++ [last]).IsChain SourceLine.Adjacent) (number : Nat) :
    (front ++ [last.linkedTo number]).IsChain SourceLine.Adjacent := by
  rw [List.isChain_append] at hchain ⊢
  refine ⟨hchain.1, List.isChain_singleton _, ?_⟩
  intro earlier hearlier later hlater
  obtain rfl : last.linkedTo number = later := by simpa using hlater
  exact hchain.2.2 earlier hearlier last (by simp)

theorem previous_linkedTo
    (hfirst : ∀ line, (front ++ [last]).head? = some line → line.previous = none) (number : Nat)
    (back : List SourceLine) :
    ∀ line, (front ++ last.linkedTo number :: back).head? = some line → line.previous = none := by
  intro line hline
  cases front with
  | nil =>
      obtain rfl : last.linkedTo number = line := by simpa using hline
      exact hfirst last rfl
  | cons earliest others => exact hfirst line (by simpa using hline)

theorem entries_linkedTo (front : List SourceLine) (last : SourceLine) (number : Nat) :
    (front ++ [last.linkedTo number]).map (fun line => (line.number, line.content)) =
      (front ++ [last]).map fun line => (line.number, line.content) := by
  simp [SourceLine.linkedTo]

end Last

/-- **One more line** keeps the lines linked. -/
theorem linked_receive {source : List String} {chain : Chain} (hlinked : Linked source chain.lines)
    (content : String) :
    Linked (source ++ [content]) (chain.receive (source.length + 1) content).lines := by
  obtain ⟨hentries, hfirst, hadjacent, hlast⟩ := hlinked
  cases chain with
  | empty =>
      by_cases hempty : content = ""
      · rw [receive, if_pos hempty]
        exact ⟨by rw [numbered_append, if_pos hempty, List.append_nil, ← hentries],
          hfirst, hadjacent, by simp [lines]⟩
      · rw [receive, if_neg hempty]
        refine ⟨?_, by simp [lines], List.isChain_singleton _, by simp [lines, hempty]⟩
        rw [numbered_append, if_neg hempty, ← hentries]
        rfl
  | upTo before position last hposition =>
      have hkept := isChain_linkedTo hadjacent (source.length + 1)
      by_cases hempty : content = ""
      · -- The line is not kept, but it takes the place behind the last kept line.
        rw [receive, if_pos hempty]
        refine ⟨?_, previous_linkedTo hfirst _ [], hkept,
          by simp [lines, hempty, SourceLine.linkedTo]⟩
        rw [numbered_append, if_pos hempty, List.append_nil, ← hentries]
        exact entries_linkedTo before last _
      · -- The line is kept: it takes that place over, and nothing stands behind it yet.
        rw [receive, if_neg hempty]
        refine ⟨?_, ?_, ?_, by simp [lines, hempty]⟩
        · rw [numbered_append, if_neg hempty, ← hentries, lines, lines, List.map_append,
            entries_linkedTo]
          rfl
        · rw [lines, List.append_assoc]
          exact previous_linkedTo hfirst _ _
        · rw [lines, List.isChain_append]
          refine ⟨hkept, List.isChain_singleton _, ?_⟩
          intro earlier hearlier later hlater
          obtain rfl : last.linkedTo (source.length + 1) = earlier := by simpa using hearlier
          rw [List.head?_cons, Option.mem_some_iff] at hlater
          subst hlater
          exact ⟨position, source.length + 1, hposition, rfl, rfl, rfl⟩

/-- A whole run keeps the lines linked. -/
theorem linked_receiveAll {done : List String} {chain : Chain} (hlinked : Linked done chain.lines)
    (source : List String) :
    Linked (done ++ source) (receiveAll done.length chain source).lines := by
  induction source generalizing done chain with
  | nil => simpa [receiveAll] using hlinked
  | cons content rest ih =>
      have hrest := ih (linked_receive hlinked content)
      rw [List.length_append, List.length_singleton, List.append_assoc] at hrest
      exact hrest

/-! ## The run gives the links -/

/-- More lines settle the next line of the last kept line, and bring their own kept lines. -/
theorem lines_receiveAll_upTo (before : List SourceLine) (position : Nat) (last : SourceLine)
    (hposition : last.number = .integer position) (number : Nat) (source : List String) :
    (receiveAll number (.upTo before position last hposition) source).lines =
      before ++ { last with next := (SourceLine.follower number source).or last.next } ::
        SourceLine.linkFrom (number + 1) (some position) source := by
  induction source generalizing before position last number with
  | nil => rfl
  | cons content rest ih =>
      rw [receiveAll, receive]
      by_cases hempty : content = ""
      · -- The place behind the last kept line is taken, until a later line takes it over.
        simp only [if_pos hempty, ih, SourceLine.linkedTo, SourceLine.follower, SourceLine.linkFrom,
          Option.or_assoc, Option.some_or]
      · simp only [if_neg hempty, ih, SourceLine.linkedTo, SourceLine.follower, SourceLine.linkFrom,
          Option.some_or, Option.or_none, List.append_assoc, List.singleton_append]

private theorem lines_receiveAll_empty (number : Nat) (source : List String) :
    (receiveAll number .empty source).lines = SourceLine.linkFrom (number + 1) none source := by
  induction source generalizing number with
  | nil => rfl
  | cons content rest ih =>
      rw [receiveAll, receive, SourceLine.linkFrom]
      by_cases hempty : content = ""
      · rw [if_pos hempty, if_pos hempty, ih]
      · rw [if_neg hempty, if_neg hempty, lines_receiveAll_upTo, Option.or_none]
        rfl

/-- **Linking line by line** gives the kept lines of the source. -/
theorem lines_receiveAll (source : List String) :
    (receiveAll 0 .empty source).lines = SourceLine.link source :=
  lines_receiveAll_empty 0 source

end Chain

/-! ## Scanned lines -/

private theorem Lexed.map_line_scan {names : Names} {blocks : Blocks} {lines : List SourceLine}
    (hscan : (scan names blocks lines).fault = none) :
    (scan names blocks lines).lines.map TokenLine.line = lines := by
  induction lines generalizing names blocks with
  | nil => rfl
  | cons line rest ih =>
      cases hline : (Scan.scanLine names blocks line).outcome with
      | error fault =>
          rw [scan_cons_error hline] at hscan
          cases hscan
      | ok scanned =>
          rw [scan_cons_ok hline] at hscan ⊢
          rw [List.map_cons, ih hscan]

/-- **The lines of a source are linked.**  A scan that comes to its end adds the lines with content,
in their order and with their positions, and links each of them to its neighbours. -/
theorem linked_lex {session : Session} {source : List String}
    (hscan : (session.lex source).1.fault = none) :
    ∃ added : List TokenLine, (session.lex source).2.lines = session.lines ++ added ∧
      Linked source (added.map TokenLine.line) := by
  refine ⟨(lex session.names source).lines, rfl, ?_⟩
  rw [lex, Lexed.map_line_scan hscan, ← Chain.lines_receiveAll]
  exact @Chain.linked_receiveAll [] .empty linked_nil source

/-- Empty lines in front, between the kept lines and at the end, in a session with a line before. -/
theorem linked_lex_emptyLines :
    let session : Session :=
      { lines := [⟨{ number := .integer 1, content := "x;\n" }, []⟩]
        names := { vars := ["a"] }
        draws := .ofList [] }
    let source := ["", "const b: int = 1;\n", "", "", "a;\n", "", ""]
    (session.lex source).1.fault = none ∧
      ∃ added : List TokenLine, (session.lex source).2.lines = session.lines ++ added ∧
        Linked source (added.map TokenLine.line) := by
  intro session source
  have hscan : (session.lex source).1.fault = none := by decide +kernel
  exact ⟨hscan, linked_lex hscan⟩

end LineCompiler
