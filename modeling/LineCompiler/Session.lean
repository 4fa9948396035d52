import LineCompiler.Compile

/-!
# Sessions

In a session several sources are scanned one after another.  Their token lines and their names are
gathered in one place, also those before a failure.  A program that was read keeps its statements,
but its names are the names of the session and grow with it.  Code is added to the same sections
until new ones are asked for, and all draws come from one stream.
-/

namespace LineCompiler

/-- The state of a session. -/
structure Session where
  /-- The token lines gathered so far. -/
  lines : List TokenLine := []
  /-- The names gathered so far. -/
  names : Names := {}
  /-- Whether a source was scanned to its end. -/
  hasTokens : Bool := false
  /-- The statements of the last program that was read. -/
  statements : Option (List Node) := none
  sections : Sections := {}
  draws : Draws

namespace Session

/-- Scans a source.  The outcome holds all the lines and names gathered so far. -/
def lex (session : Session) (source : List String) : Lexed × Session :=
  let lexed := LineCompiler.lex session.names source
  let lines := session.lines ++ lexed.lines
  ({ lexed with lines },
    { session with
      lines
      names := lexed.names
      hasTokens := session.hasTokens || lexed.fault.isNone })

/-- Reads the token lines as a program; nothing happens before a source was scanned to its end. -/
def read (session : Session) : Option (Except Fault Program) × Session :=
  if session.hasTokens then
    match Reader.read session.lines with
    | .error fault => (some (.error fault), session)
    | .ok statements =>
        (some (.ok { statements, names := session.names }),
          { session with statements := some statements })
  else (none, session)

/-- Generates code for a program into the sections of the session. -/
def generateFor (session : Session) (program : Program) : Option Fault × Session :=
  let emission := Generate.program session.draws program
  (emission.fault,
    { session with
      sections := session.sections.apply emission.writes
      draws := emission.draws })

/-- Generates code for the last program; nothing happens if none was read. -/
def generate (session : Session) : Option (Option Fault) × Session :=
  match session.statements with
  | none => (none, session)
  | some statements =>
      let (fault, session) := session.generateFor { statements, names := session.names }
      (some fault, session)

/-- Starts with empty sections. -/
def renewSections (session : Session) : Session :=
  { session with sections := {} }

end Session

end LineCompiler
