import LineCompiler.Compile
import LineCompiler.Text.Utf8

/-!
# The command line

Compiles the source file that the first argument names.  The assembly code goes to a file in the
working directory, whose name has the ending `.asm` in place of `.mv`.  What the stages tell is
printed.
-/

namespace LineCompiler

namespace CommandLine

/-- The name of the assembly file for a source file. -/
def assemblyName (path : String) : String :=
  ((path.splitOn "/").getLastD "").replace ".mv" ".asm"

/-- Draws that depend on a seed. -/
def seeded (seed : Nat) : Draws where
  stream position := (mixHash (UInt64.ofNat seed) (UInt64.ofNat position)).toNat

/-- Tells why a stage failed. -/
def report (fault : Fault) : IO UInt32 := do
  match fault with
  | .rejected _ => return 1
  | fault =>
      IO.println (errorMark ++ fault.message?.getD "")
      return 1

/-- Compiles a source text, tells about it, and writes the code. -/
def run (path source : String) : IO UInt32 := do
  let seed ← IO.rand 0 1000000000
  IO.println (infoMark ++ "Generating tokens...")
  match compile (seeded seed) source with
  | .unscanned lexed fault =>
      lexed.log.forM (IO.println ·)
      report fault
  | .unread _ lexed fault =>
      lexed.log.forM (IO.println ·)
      IO.println (infoMark ++ "Generating an AST tree...")
      report fault
  | .generated _ lexed _ sections fault =>
      lexed.log.forM (IO.println ·)
      IO.println (infoMark ++ "Generating an AST tree...")
      IO.println (infoMark ++ "Generating assembly code...")
      match fault with
      | some fault => report fault
      | none =>
          IO.FS.writeFile (assemblyName path) sections.assembly
          return 0

/-- The bytes of a file, if it can be read. -/
def bytesOf? (path : String) : IO (Option (List UInt8)) := do
  try
    return some (← IO.FS.readBinFile path).toList
  catch _ => return none

/-- Compiles a source file. -/
def compileFile (path : String) : IO UInt32 := do
  match ← bytesOf? path with
  | none =>
      IO.println (errorMark ++ s!"The provided file path '{path}' doesn't exists.")
      return 1
  | some bytes =>
      match Text.decode? bytes with
      | none => report .undecodable
      | some text => run path (String.ofList text)

end CommandLine

end LineCompiler

/-- Compiles the source file that the first argument names. -/
def main (arguments : List String) : IO UInt32 :=
  match arguments with
  | path :: _ => LineCompiler.CommandLine.compileFile path
  | [] => do
      IO.println (LineCompiler.errorMark ++ "Missing argument 'FILE_PATH'.")
      return 2
