import LineCompiler.Assembly.Generate
import LineCompiler.Program.Reader
import LineCompiler.Text.Newline

/-!
# Compilation

A source text is cut into lines, the lines are scanned for tokens, the token lines are read as a
program, and code is generated for the program.  A compilation ends at the first stage that fails,
and it tells what the stages before it have found.
-/

namespace LineCompiler

/-- The lines of a source text, each with its line feed. -/
def sourceLines (source : String) : List String :=
  (Text.lines (Text.unifyNewlines source.toList)).map String.ofList

/-- What a compilation comes to. -/
inductive Compilation where
  /-- The scan for tokens fails. -/
  | unscanned (lexed : Lexed) (fault : Fault)
  /-- The token lines are no program. -/
  | unread (lineCount : Nat) (lexed : Lexed) (fault : Fault)
  /-- Code is generated, in part only if there is a fault. -/
  | generated (lineCount : Nat) (lexed : Lexed) (program : Program) (sections : Sections)
      (fault : Option Fault)

/-- Compiles the lines of a source. -/
def compileLines (draws : Draws) (lines : List String) : Compilation :=
  let lexed := lex {} lines
  match lexed.fault with
  | some fault => .unscanned lexed fault
  | none =>
      match Reader.read lexed.lines with
      | .error fault => .unread lines.length lexed fault
      | .ok statements =>
          let program : Program := { statements, names := lexed.names }
          let emission := Generate.program draws program
          .generated lines.length lexed program (Sections.apply {} emission.writes) emission.fault

/-- Compiles a source text. -/
def compile (draws : Draws) (source : String) : Compilation :=
  compileLines draws (sourceLines source)

end LineCompiler
