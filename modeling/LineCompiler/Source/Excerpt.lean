import LineCompiler.Atom
import LineCompiler.Fault
import LineCompiler.Text.Blank

/-!
# Excerpts

An excerpt shows a line between its neighbours, with an arrow in front of it.
-/

namespace LineCompiler.Source

/-- A line with its number, as an excerpt shows it. -/
structure QuotedLine where
  number : Atom
  content : Atom

/-- One line of an excerpt behind its margin; only a text can stand in it. -/
def QuotedLine.row (margin : String) (line : QuotedLine) : Except Fault String :=
  match line.content with
  | .text content =>
      .ok ("\t" ++ margin ++ " " ++ line.number.plain ++ " | " ++
        String.ofList (Text.strip content.toList) ++ "\n")
  | content => .error (.missingField content.sort "strip")

/-- A line that has to be there. -/
def present (line : Option QuotedLine) : Except Fault QuotedLine :=
  match line with
  | some line => .ok line
  | none => .error (.missingField Atom.absent.sort "content")

/-- The excerpt of a line with the line before it and the line after it. -/
def excerpt (previous current next : Option QuotedLine) : Except Fault String := do
  let previous ← present previous
  let current ← present current
  let next ← present next
  return (← previous.row "  ") ++ (← current.row "->") ++ (← next.row "  ")

end LineCompiler.Source
