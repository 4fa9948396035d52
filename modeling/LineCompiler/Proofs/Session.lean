import LineCompiler.Proofs.Assembly.Growth
import LineCompiler.Proofs.Insertion
import LineCompiler.Proofs.Token.Failure

/-!
# What the sources of a session have to do with each other

A session gathers the token lines and the names of all its sources.  A source is therefore compiled
as if it were the first one only as long as no line has been gathered before it: afterwards the
lines of the earlier sources come first in what is read (`compile_eq_iff`).  And a program that was
read is generated with the names of the session, so sources that are scanned afterwards may change
its code: its text stays the same just in case none of them declares a name that is an argument of a
system call in the program (`assembly_eq_iff`).
-/

namespace LineCompiler

open Generate

/-! ## What a scan leaves behind -/

namespace Lexed

variable {names : Names} {blocks : Blocks} {lines : List SourceLine}

/-- Only a line that is kept declares names. -/
theorem names_of_lines_eq_nil (hnone : (scan names blocks lines).lines = []) :
    (scan names blocks lines).names = names := by
  cases lines with
  | nil => rfl
  | cons line rest =>
      cases hline : (Scan.scanLine names blocks line).outcome with
      | error fault => rw [scan_cons_error hline]
      | ok scanned =>
          rw [scan_cons_ok hline] at hnone
          exact nomatch hnone

/-- A name that is declared stays declared. -/
theorem isStored_scan {argument : Node} (hstored : isStored names argument = true) :
    isStored (scan names blocks lines).names argument = true := by
  induction lines generalizing names blocks with
  | nil => exact hstored
  | cons line rest ih =>
      cases hline : (Scan.scanLine names blocks line).outcome with
      | error fault =>
          rw [scan_cons_error hline]
          exact hstored
      | ok scanned =>
          rw [scan_cons_ok hline]
          refine ih ?_
          unfold isStored at hstored ⊢
          split at hstored
          · simp only [List.contains_iff_mem, List.mem_append, Names.append] at hstored ⊢
            rcases hstored with hmem | hmem
            · exact Or.inl (Or.inl hmem)
            · exact Or.inr (Or.inl hmem)
          · cases hstored

end Lexed

/-- What the scan has found in a compilation. -/
def Compilation.lexed : Compilation → Lexed
  | .unscanned lexed _ => lexed
  | .unread _ lexed _ => lexed
  | .generated _ lexed _ _ _ => lexed

private theorem lexed_compileLines (draws : Draws) (lines : List String) :
    (compileLines draws lines).lexed = lex {} lines := by
  simp only [compileLines]
  split
  · rfl
  · split <;> rfl

/-! ## What was done before in a session -/

namespace Session

/-- What can be done in a session. -/
inductive Action where
  | lex (source : List String)
  | read
  | generate
  | renewSections

/-- The session after an action, whether or not it fails. -/
def act (session : Session) : Action → Session
  | .lex source => (session.lex source).2
  | .read => session.read.2
  | .generate => session.generate.2
  | .renewSections => session.renewSections

/-- The session after some actions. -/
def after (session : Session) (actions : List Action) : Session :=
  actions.foldl act session

/-- Compiles a source in a session: scans it, reads what has been gathered and generates code into
new sections, up to the first of these that fails. -/
def compile (session : Session) (source : List String) : Option Compilation :=
  let (lexed, session) := session.lex source
  match lexed.fault with
  | some fault => some (.unscanned lexed fault)
  | none =>
      match session.read with
      | (none, _) => none
      | (some (.error fault), _) => some (.unread source.length lexed fault)
      | (some (.ok program), session) =>
          match session.renewSections.generate with
          | (none, _) => none
          | (some fault, session) =>
              some (.generated source.length lexed program session.sections fault)

/-- A session that has gathered no line has gathered no name. -/
def Gathers (session : Session) : Prop :=
  session.lines = [] → session.names = {}

variable {session : Session} {source : List String}

/-- No action but a scan gathers anything. -/
theorem act_of_not_lex {action : Action} (hother : ∀ source, action ≠ .lex source) :
    (session.act action).lines = session.lines ∧ (session.act action).names = session.names := by
  cases action with
  | lex source => exact absurd rfl (hother source)
  | read =>
      simp only [act, read]
      split
      · split <;> exact ⟨rfl, rfl⟩
      · exact ⟨rfl, rfl⟩
  | generate =>
      simp only [act, generate]
      split <;> exact ⟨rfl, rfl⟩
  | renewSections => exact ⟨rfl, rfl⟩

theorem lines_lex_eq_nil_iff (hgathers : session.Gathers) :
    (session.lex source).2.lines = [] ↔
      session.lines = [] ∧ (LineCompiler.lex {} source).lines = [] := by
  rw [lex, List.append_eq_nil_iff]
  refine and_congr_right fun hnone => ?_
  rw [hgathers hnone]

theorem gathers_act (hgathers : session.Gathers) (action : Action) :
    (session.act action).Gathers := by
  intro hnone
  by_cases hlex : ∃ source, action = .lex source
  · obtain ⟨source, rfl⟩ := hlex
    obtain ⟨hlines, hsource⟩ := (lines_lex_eq_nil_iff hgathers).mp hnone
    have hnames : (LineCompiler.lex session.names source).names = {} := by
      rw [hgathers hlines]
      exact Lexed.names_of_lines_eq_nil hsource
    exact hnames
  · obtain ⟨hlines, hnames⟩ := @act_of_not_lex session action fun source heq => hlex ⟨source, heq⟩
    rw [hnames]
    exact hgathers (hlines ▸ hnone)

private theorem gathers_after (hgathers : session.Gathers) (actions : List Action) :
    (session.after actions).Gathers := by
  induction actions generalizing session with
  | nil => exact hgathers
  | cons action rest ih => exact ih (gathers_act hgathers action)

/-- **When nothing has been gathered**: when no source that was scanned has a line before its first
fault. -/
theorem lines_after_eq_nil_iff (hgathers : session.Gathers) (actions : List Action) :
    (session.after actions).lines = [] ↔
      session.lines = [] ∧ ∀ source, .lex source ∈ actions →
        (LineCompiler.lex {} source).lines = [] := by
  induction actions generalizing session with
  | nil => simp [after]
  | cons action rest ih =>
      have hrest : (session.after (action :: rest)).lines = [] ↔ _ :=
        ih (gathers_act hgathers action)
      rw [hrest]
      by_cases hlex : ∃ source, action = .lex source
      · obtain ⟨source, rfl⟩ := hlex
        rw [act, lines_lex_eq_nil_iff hgathers, and_assoc]
        refine and_congr_right fun _ => ?_
        simp only [List.mem_cons, Action.lex.injEq, forall_eq_or_imp]
      · rw [(act_of_not_lex fun source heq => hlex ⟨source, heq⟩).1]
        refine and_congr_right fun _ => forall_congr' fun source => ?_
        rw [List.mem_cons, or_iff_right fun heq => hlex ⟨source, heq.symm⟩]

/-! ## A source that is compiled after others -/

section Compile

theorem compile_of_fault {fault : Fault} (hscan : (session.lex source).1.fault = some fault) :
    session.compile source = some (.unscanned (session.lex source).1 fault) := by
  rw [compile]
  simp only [hscan]

theorem hasTokens_lex (hscan : (session.lex source).1.fault = none) :
    (session.lex source).2.hasTokens = true := by
  simp only [lex] at hscan ⊢
  simp [hscan]

theorem compile_of_unread {fault : Fault} (hscan : (session.lex source).1.fault = none)
    (hread : Reader.read (session.lex source).2.lines = .error fault) :
    session.compile source = some (.unread source.length (session.lex source).1 fault) := by
  rw [compile]
  simp only [hscan, read, hasTokens_lex hscan, if_true, hread]

theorem compile_of_read {statements : List Node} (hscan : (session.lex source).1.fault = none)
    (hread : Reader.read (session.lex source).2.lines = .ok statements) :
    session.compile source =
      let program : Program := { statements, names := (session.lex source).2.names }
      some (.generated source.length (session.lex source).1 program
        (Sections.apply {} (Generate.program session.draws program).writes)
        (Generate.program session.draws program).fault) := by
  rw [compile]
  simp only [hscan, read, hasTokens_lex hscan, if_true, hread]
  rfl

/-- A compilation comes to something, and it tells what the scan in the session has found. -/
theorem exists_compile (session : Session) (source : List String) :
    ∃ compilation, session.compile source = some compilation ∧
      compilation.lexed = (session.lex source).1 := by
  cases hscan : (session.lex source).1.fault with
  | some fault => exact ⟨_, compile_of_fault hscan, rfl⟩
  | none =>
      cases hread : Reader.read (session.lex source).2.lines with
      | error fault => exact ⟨_, compile_of_unread hscan hread, rfl⟩
      | ok statements => exact ⟨_, compile_of_read hscan hread, rfl⟩

theorem compile_of_empty (hlines : session.lines = []) (hnames : session.names = {}) :
    session.compile source = some (compileLines session.draws source) := by
  have hlex : (session.lex source).1 = LineCompiler.lex {} source := by
    rw [lex, hlines, hnames]
    rfl
  cases hscan : (LineCompiler.lex {} source).fault with
  | some fault => rw [compile_of_fault (hlex ▸ hscan), compileLines_of_fault _ hscan, hlex]
  | none =>
      cases hread : Reader.read (LineCompiler.lex {} source).lines with
      | error fault =>
          rw [compile_of_unread (hlex ▸ hscan) (hlex ▸ hread), compileLines_of_unread _ hscan hread,
            hlex]
      | ok statements =>
          have hgathered : (session.lex source).2.names = (LineCompiler.lex {} source).names := by
            rw [lex, hnames]
          rw [compile_of_read (hlex ▸ hscan) (hlex ▸ hread), hlex, hgathered,
            compileLines_of_read session.draws { statements, names := _ } hscan hread rfl]

/-- **When a source is compiled as if it were the first one**, provided that it can be scanned. -/
theorem compile_eq_iff (hgathers : session.Gathers)
    (hscan : (LineCompiler.lex {} source).fault = none) :
    session.compile source = some (compileLines session.draws source) ↔ session.lines = [] := by
  constructor
  · intro heq
    obtain ⟨compilation, hcompile, hlexed⟩ := exists_compile session source
    rw [hcompile] at heq
    rw [Option.some.inj heq, lexed_compileLines] at hlexed
    have hfault : (LineCompiler.lex session.names source).fault = none :=
      (congrArg Lexed.fault hlexed).symm.trans hscan
    -- All lines of the source are kept in both scans, so there can be none in front of them.
    have hlines := congrArg List.length (congrArg Lexed.lines hlexed)
    rw [lex, List.length_append] at hlines
    have hown := Lexed.length_lines_of_ok hfault
    have hfresh := Lexed.length_lines_of_ok hscan
    refine List.length_eq_zero_iff.mp ?_
    simp only [LineCompiler.lex] at *
    omega
  · intro hlines
    exact compile_of_empty hlines (hgathers hlines)

end Compile

/-! ## A program that is generated after other sources were scanned -/

/-- What sources that are scanned leave of a session. -/
structure Continues (session later : Session) : Prop where
  statements : later.statements = session.statements
  sections : later.sections = session.sections
  draws : later.draws = session.draws
  stored : ∀ argument, isStored session.names argument = true → isStored later.names argument = true

private theorem continues_lex (session : Session) (source : List String) :
    session.Continues (session.lex source).2 :=
  ⟨rfl, rfl, rfl, fun _ => Lexed.isStored_scan⟩

theorem Continues.trans {first second third : Session} (hfirst : first.Continues second)
    (hsecond : second.Continues third) : first.Continues third where
  statements := hsecond.statements.trans hfirst.statements
  sections := hsecond.sections.trans hfirst.sections
  draws := hsecond.draws.trans hfirst.draws
  stored argument hstored := hsecond.stored argument (hfirst.stored argument hstored)

private theorem continues_after (session : Session) (sources : List (List String)) :
    session.Continues (session.after (sources.map .lex)) := by
  induction sources generalizing session with
  | nil => exact ⟨rfl, rfl, rfl, fun _ => id⟩
  | cons source rest ih => exact (continues_lex session source).trans (ih _)

theorem generate_of_statements {statements : List Node}
    (hstatements : session.statements = some statements) :
    session.generate =
      (some (session.generateFor { statements, names := session.names }).1,
        (session.generateFor { statements, names := session.names }).2) := by
  rw [generate, hstatements]

section Later

variable {later : Session} {statements : List Node}

/-- The names of later sources do not decide whether code can be generated. -/
theorem generate_fault_continues (hlater : session.Continues later)
    (hstatements : session.statements = some statements) :
    later.generate.1 = session.generate.1 := by
  have hgrown := grown_program hlater.stored session.draws statements
  rw [generate_of_statements hstatements,
    generate_of_statements (hlater.statements.trans hstatements), generateFor, generateFor,
    hlater.draws]
  exact congrArg some hgrown.fault

theorem generate_sections_of_same (hlater : session.Continues later)
    (hstatements : session.statements = some statements)
    (hsame : SameArguments session.names later.names statements) :
    later.generate.2.sections = session.generate.2.sections := by
  have hgrown := grown_program hlater.stored session.draws statements
  have hprogram := hgrown.same ((newlyStoredIn_eq_zero_iff_same hlater.stored).mpr hsame)
  rw [generate_of_statements hstatements,
    generate_of_statements (hlater.statements.trans hstatements), generateFor, generateFor,
    hlater.draws, hlater.sections, hprogram]

/-- **When later sources leave the code of a program alone.** -/
theorem assembly_eq_iff (hlater : session.Continues later)
    (hstatements : session.statements = some statements) (hok : session.generate.1 = some none) :
    later.generate.2.sections.assembly = session.generate.2.sections.assembly ↔
      SameArguments session.names later.names statements := by
  refine ⟨fun heq => ?_, fun hsame =>
    congrArg Sections.assembly (generate_sections_of_same hlater hstatements hsame)⟩
  have hgrown := grown_program hlater.stored session.draws statements
  rw [generate_of_statements hstatements] at hok heq
  rw [generate_of_statements (hlater.statements.trans hstatements), generateFor, generateFor,
    hlater.draws, hlater.sections] at heq
  have hlength := Sections.length_assembly session.sections hgrown.frame
  have hsize := hgrown.size (Option.some.inj hok)
  rw [← newlyStoredIn_eq_zero_iff_same hlater.stored]
  -- Equal texts are equally long, and each new name makes the later one longer.
  have htext := congrArg String.length heq
  simp only at htext
  omega

end Later

end Session

/-- **How compilations in one session depend on each other.**  Let anything be done in a session.
No line is gathered just in case every source that was scanned fails before its first line is kept.
As long as no line is gathered, all sources are compiled as if they were the first one, and once a
line is gathered, no source is that can be scanned by itself.  If a program was read, the names of
sources that are scanned later do not change whether its code can be generated, and they change the
code just in case an argument of a system call becomes the name of a constant or a variable. -/
theorem dependence_after (draws : Draws) (actions : List Session.Action) :
    let session := Session.after { draws } actions
    (session.lines = [] ↔ ∀ source, .lex source ∈ actions → (lex {} source).lines = []) ∧
      (session.lines = [] →
        ∀ source, session.compile source = some (compileLines session.draws source)) ∧
      (∀ source, (lex {} source).fault = none →
        (session.compile source = some (compileLines session.draws source) ↔ session.lines = [])) ∧
      ∀ statements, session.statements = some statements → ∀ sources : List (List String),
        let later := session.after (sources.map .lex)
        later.generate.1 = session.generate.1 ∧
          (SameArguments session.names later.names statements →
            later.generate.2.sections = session.generate.2.sections) ∧
          (session.generate.1 = some none →
            (later.generate.2.sections.assembly = session.generate.2.sections.assembly ↔
              SameArguments session.names later.names statements)) := by
  have hfresh : Session.Gathers { draws } := fun _ => rfl
  have hgathers := Session.gathers_after hfresh actions
  refine ⟨?_, fun hlines source => Session.compile_of_empty hlines (hgathers hlines),
    fun source hscan => Session.compile_eq_iff hgathers hscan,
    fun statements hstatements sources => ?_⟩
  · rw [Session.lines_after_eq_nil_iff hfresh]
    exact and_iff_right rfl
  · have hlater := Session.continues_after (Session.after { draws } actions) sources
    exact ⟨Session.generate_fault_continues hlater hstatements,
      Session.generate_sections_of_same hlater hstatements,
      Session.assembly_eq_iff hlater hstatements⟩

theorem dependence_after_elseWithoutIf :
    (Session.after { draws := .ofList [] }
        [.lex ["", "else x;\n", "const a: int = 1;\n"], .read,
          .generate]).compile ["const b: int = 2;\n"] =
      some (compileLines (.ofList []) ["const b: int = 2;\n"]) := by
  obtain ⟨-, hcompile, -⟩ := dependence_after (.ofList [])
    [.lex ["", "else x;\n", "const a: int = 1;\n"], .read, .generate]
  exact hcompile (by decide +kernel) _

/-- A session in which a source with a system call was scanned and read. -/
def sessionWithCall : Session :=
  Session.after { draws := .ofList [] } [.lex ["syscall 1, x, e;\n"], .read]

/-- A source that is scanned in it is not the only one that is found, and changes the code of the
call. -/
theorem dependent_sessionWithCall :
    (sessionWithCall.lex ["const x: int = 1;\n"]).1.lines.length = 2 ∧
      (lex {} ["const x: int = 1;\n"]).lines.length = 1 ∧
      sessionWithCall.generate.1 = some none ∧
      sessionWithCall.generate.2.sections.text[1]? =
        some ⟨"main", ["\tmov rax, 1\n", "\tmov rdi, x\n", "\tsyscall\n", "\tmov [e], rax\n"]⟩ ∧
      (sessionWithCall.lex ["const x: int = 1;\n"]).2.generate.2.sections.text[1]? =
        some ⟨"main", ["\tmov rax, 1\n", "\tmov rdi, [x]\n", "\tsyscall\n",
          "\tmov [e], rax\n"]⟩ := by
  decide +kernel

end LineCompiler
