import LineCompiler.Text.Split
import LineCompiler.Toolchain.Console

/-!
# Assembling the standard library

The sources of the standard library are assembled one after another into objects in one directory,
which is made if it is not there.  What the assembler complains about is told, and the work goes on;
only when there is no assembler does it stop.
-/

namespace LineCompiler

namespace Libraries

/-- The directory of the objects. -/
def objectDirectory : String := "stdlib/libs"

/-- The sources with their objects. -/
def sources : List (String × String) :=
  [("stdlib/core.asm", objectDirectory ++ "/core.o"),
    ("stdlib/io/io.asm", objectDirectory ++ "/io.o")]

/-- The complaint of a shell that has no such command. -/
def absenceMark : String := "command not found"

/-- Makes the directory of the objects if there is nothing at its place. -/
def prepare : Tool Unit := do
  let console ← get
  unless console.files.leads console.home objectDirectory do
    Tool.say (infoMark ++ "Creating directory '" ++ objectDirectory ++ "'...")
    match (console.files.locate console.home objectDirectory).bind console.files.makeDirectory with
    | .error fault => throw fault
    | .ok files => modify fun console => { console with files }

/-- Assembles one source. -/
def assemble (source object : String) : Tool Unit := do
  Tool.say (infoMark ++ "Compiling lib '" ++ source ++ "'...")
  let reply ← Tool.command (Tool.assembleCommand (.text source) (.text object))
  let complaint ← Tool.decoded reply.errors
  unless complaint.isEmpty do
    Tool.say (errorMark ++ "Caught the following error \n" ++ complaint)
  if Text.contains absenceMark.toList complaint.toList then
    Tool.say (errorMark ++ "nasm is not installed")
    throw .stopped

/-- Assembles the standard library. -/
def compile : Tool Unit := do
  prepare
  Tool.say (infoMark ++ "Compiling std libraries")
  for (source, object) in sources do
    assemble source object

end Libraries

end LineCompiler
