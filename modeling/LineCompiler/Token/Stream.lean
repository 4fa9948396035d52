import LineCompiler.Token.Scan

/-!
# Token lines

The lines of a source are scanned one after another.  A line that fails ends the scan; the lines
before it and the names they declare are kept.
-/

namespace LineCompiler

/-- A source line with its tokens. -/
structure TokenLine where
  line : SourceLine
  tokens : List Token
  deriving DecidableEq

/-- What the scan of a source gives. -/
structure Lexed where
  lines : List TokenLine := []
  names : Names := {}
  /-- The notices of the scan, without that of a refusal. -/
  notices : List String := []
  /-- Why the scan ended early, if it did. -/
  fault : Option Fault := none

namespace Lexed

/-- The notice of the end of a statement. -/
def endNotice (line : Atom) : String :=
  debugMark ++ ": Reached EOF of line '" ++ line.plain ++ "'."

/-- Scans lines; `names` and `blocks` are what the lines before them have left. -/
def scan (names : Names) (blocks : Blocks) : List SourceLine → Lexed
  | [] => { names }
  | line :: rest =>
      let result := Scan.scanLine names blocks line
      let notices := List.replicate result.ends (endNotice line.number)
      match result.outcome with
      | .error fault => { names, notices, fault := some fault }
      | .ok scanned =>
          let after := scan (names.append scanned.declared) scanned.blocks rest
          { after with
            lines := ⟨line, scanned.tokens⟩ :: after.lines
            notices := notices ++ after.notices }

/-- The log of a scan: its notices, and last the one of a refusal. -/
def log (lexed : Lexed) : List String :=
  lexed.notices ++ (lexed.fault.map Fault.notices).getD []

end Lexed

/-- Scans the lines of a source, with names declared before it. -/
def lex (names : Names) (source : List String) : Lexed :=
  Lexed.scan names {} (SourceLine.link source)

end LineCompiler
