import LineCompiler.Files.FileSystem
import LineCompiler.Program.Node
import LineCompiler.Text.Utf8

/-!
# Consoles

Tools run external commands.  A console records the commands and the notices of a tool, and answers
each command with the next of its replies.  A tool that fails leaves the console as it was at the
failure.
-/

namespace LineCompiler

/-- What an external command answers. -/
structure Reply where
  output : List UInt8 := []
  errors : List UInt8 := []
  /-- Whether the command cannot be run at all. -/
  isMissing : Bool := false
  deriving DecidableEq

/-- Where a tool runs, and what it has done. -/
structure Console where
  files : FileSystem := {}
  /-- The working directory. -/
  home : Location := []
  log : List String := []
  /-- The words of each command. -/
  commands : List (List Node) := []
  /-- The replies that are left; when there are none, commands answer nothing. -/
  replies : List Reply := []

/-- A tool at work on a console. -/
abbrev Tool (α : Type) := ExceptT Fault (StateM Console) α

namespace Tool

/-- Tells something. -/
def say (notice : String) : Tool Unit :=
  modify fun console => { console with log := console.log ++ [notice] }

/-- Runs a command. -/
def command (words : List Node) : Tool Reply := do
  let console ← get
  let reply := console.replies.headD {}
  set { console with
    commands := console.commands ++ [words]
    replies := console.replies.tail }
  if reply.isMissing then throw .fileNotFound
  return reply

/-- The text that some bytes encode. -/
def decoded (bytes : List UInt8) : Tool String :=
  match Text.decode? bytes with
  | some text => return String.ofList text
  | none => throw .undecodable

/-- The command that assembles a source into an object. -/
def assembleCommand (source object : Node) : List Node :=
  [.text "nasm", .text "-f", .text "elf64", source, .text "-o", object]

/-- The command that links objects into a program. -/
def linkCommand (program : Node) (objects : List Node) : List Node :=
  [.text "ld", .text "-s", .text "-o", program] ++ objects

end Tool

end LineCompiler
