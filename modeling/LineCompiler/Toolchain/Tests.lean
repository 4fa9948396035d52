import LineCompiler.Program.Outline
import LineCompiler.Text.Blank
import LineCompiler.Toolchain.Console

/-!
# Running tests

A test names the files of a program and what the program is expected to print.  All tests are loaded
before any of them runs.  To run one, its source and its library are assembled and linked, and the
program's two outputs are compared with the expected ones, blanks at both ends aside.  The first
test that fails stops the run.
-/

namespace LineCompiler

/-- A test of a program. -/
structure ProgramTest where
  source : Node
  object : Node
  program : Node
  library : Node
  libraryObject : Node
  /-- The lines that the program is expected to print. -/
  output : Node
  /-- The lines that the program is expected to print as errors. -/
  errors : Node

namespace ProgramTest

/-- The value under a key of a table. -/
def entry (table : Node) (key : String) : Except Fault Node :=
  match table with
  | .table keys values =>
      match (keys.zip values).lookup key with
      | some value => .ok value
      | none => .error (.unknownKey key)
  | value => .error (.noEntries value.sort)

/-- The test that a table describes. -/
def load (description : Node) : Except Fault ProgramTest := do
  let table ← entry description "Test"
  return {
    source := ← entry table "test_file_path"
    object := ← entry table "test_file_object_path"
    program := ← entry table "binary_file_path"
    library := ← entry table "lib_file_path"
    libraryObject := ← entry table "lib_object_path"
    output := ← entry table "stdout"
    errors := ← entry table "stderr" }

/-- The texts of lines, from the one at `position` on. -/
def textsFrom (position : Nat) : List Node → Except Fault (List String)
  | [] => .ok []
  | .bare (.text line) :: rest => (textsFrom (position + 1) rest).map (line :: ·)
  | value :: _ => .error (.notAText position value.sort)

/-- The lines of an expected output: a text counts as the list of its characters, and a table as the
list of its keys. -/
def linesOf : Node → Except Fault (List String)
  | .list items => textsFrom 0 items
  | .bare (.text content) => .ok (content.toList.map String.singleton)
  | .table keys _ => .ok keys
  | _ => .error .notASequence

/-- A text without the blanks at both ends. -/
def trimmed (text : String) : String :=
  String.ofList (Text.strip text.toList)

/-- The text of an expected output. -/
def expected (value : Node) : Tool String :=
  match linesOf value with
  | .ok lines => return trimmed ("\n".intercalate lines)
  | .error fault => throw fault

/-- Tells that a test failed, and stops. -/
def fail (test : ProgramTest) (stream shown : String) : Tool Unit := do
  Tool.say "[bold red]FAILD[reset]"
  Tool.say
    (warningMark ++ "Expected " ++ stream ++ " from test '" ++ test.source.plain ++
      "'\n\t " ++ shown)
  throw .stopped

/-- Builds and runs the program of a test, and compares its outputs with the expected ones. -/
def run (test : ProgramTest) : Tool Unit := do
  let _ ← Tool.command (Tool.assembleCommand test.source test.object)
  let _ ← Tool.command (Tool.assembleCommand test.library test.libraryObject)
  let _ ← Tool.command (Tool.linkCommand test.program [test.object, test.libraryObject])
  Tool.say (infoMark ++ "Running test '" ++ test.source.plain ++ "'...")
  let reply ← Tool.command [.text test.program.plain]
  let errors ← Tool.decoded reply.errors
  let expectedErrors ← expected test.errors
  if trimmed errors ≠ expectedErrors then
    test.fail "stderr" ("STDERR = " ++ expectedErrors)
  let output ← Tool.decoded reply.output
  let expectedOutput ← expected test.output
  if trimmed output ≠ expectedOutput then
    test.fail "stdout" ("STDOUT = " ++ if output = "" then Atom.absent.plain else output)
  Tool.say "[bold green]PASS[reset]"

/-- Loads tests and runs them one after another. -/
def runAll (descriptions : List Node) : Tool Unit := do
  Tool.say (infoMark ++ "Generating tests objects...")
  match descriptions.mapM load with
  | .error fault => throw fault
  | .ok tests =>
      for test in tests do
        test.run

end ProgramTest

end LineCompiler
