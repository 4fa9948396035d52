import LineCompiler.Files.FileSystem
import LineCompiler.Text.Newline
import LineCompiler.Text.Utf8

/-!
# Reading files

A file is read piece by piece, by line or by chunk, with its line ends unified.  Bytes that are no
text give no piece at all.  If the bytes merely stop inside a character, the pieces that are
complete before it are given first; a carriage return right before it does not count, since a line
feed could follow.
-/

namespace LineCompiler

/-- The ways to read a file. -/
inductive ReadMode where
  | byLine | byChunk
  deriving DecidableEq

namespace ReadMode

/-- The number of a way to read. -/
def number : ReadMode → Nat
  | .byLine => 1
  | .byChunk => 2

/-- The way to read that a number means. -/
def ofNumber? (number : Int) : Option ReadMode :=
  if number = 1 then some .byLine else if number = 2 then some .byChunk else none

theorem ofNumber?_number (mode : ReadMode) : ofNumber? mode.number = some mode := by
  cases mode <;> rfl

end ReadMode

/-- How a file is to be read. -/
structure ReadOptions where
  /-- How many threads share the file. -/
  threads : Option Int := some 3
  /-- The number of the way to read. -/
  mode : Option Int := some ReadMode.byLine.number
  /-- The size of a chunk. -/
  size : Option Int := none

namespace ReadOptions

/-- What the threads share when no chunk size is given. -/
def sharedSize : Int := 72

/-- The greatest size that a chunk can be asked to have; the least is one below its negative. -/
def greatestSize : Int := 9223372036854775807

/-- The size of a chunk: the one that is given, or a share for each thread, rounded toward zero. -/
def chunkSize (options : ReadOptions) : Except Fault Int :=
  match options.size, options.threads with
  | some size, _ => .ok size
  | none, none => .error (.noDivisor Atom.absent.sort)
  | none, some threads =>
      if threads = 0 then .error .divisionByZero else .ok (Int.tdiv sharedSize threads)

/-- Whether a chunk can be asked to have a size. -/
def isSize (size : Int) : Bool :=
  decide (-(greatestSize + 1) ≤ size) && decide (size ≤ greatestSize)

end ReadOptions

/-- What reading gives: pieces, and a fault if it ended early. -/
structure Pieces where
  parts : List String := []
  fault : Option Fault := none

namespace Pieces

/-- Cuts a text into chunks of a positive size; the last one may be shorter. -/
def chunks (size : Nat) (text : List Char) : List (List Char) :=
  if text.length ≤ size ∨ size = 0 then
    if text.isEmpty then [] else [text]
  else text.take size :: chunks size (text.drop size)
termination_by text.length
decreasing_by simp; omega

/-- The pieces of a text.  A chunk size of zero gives none, and with a negative one the text is one
piece. -/
def ofText (mode : ReadMode) (size : Int) (text : List Char) : List (List Char) :=
  match mode with
  | .byLine => Text.lines text
  | .byChunk =>
      match size with
      | .ofNat 0 => []
      | .ofNat size => chunks size text
      | .negSucc _ => if text.isEmpty then [] else [text]

/-- The pieces that cannot grow when more text follows. -/
def completeIn (mode : ReadMode) (size : Int) (text : List Char) : List (List Char) :=
  match mode with
  | .byLine => (Text.lines text).filter fun line => line.getLast? = some '\n'
  | .byChunk =>
      match size with
      | .ofNat size => (chunks size text).filter fun chunk => chunk.length = size
      | .negSucc _ => []

/-- A text without the carriage return at its end. -/
def withoutFinalReturn (text : List Char) : List Char :=
  if text.getLast? = some '\r' then text.dropLast else text

/-- The pieces of some bytes. -/
def ofBytes (mode : ReadMode) (size : Int) (content : List UInt8) : Pieces :=
  let decoded := Text.decode content
  match decoded.ending with
  | .whole =>
      { parts := (ofText mode size (Text.unifyNewlines decoded.text)).map String.ofList }
  | .cut =>
      { parts :=
          (completeIn mode size
            (Text.unifyNewlines (withoutFinalReturn decoded.text))).map String.ofList
        fault := some .undecodable }
  | .malformed => { fault := some .undecodable }

end Pieces

namespace FileSystem

/-- Reads the file that a path names.  The size of a chunk is settled before the file is opened,
also when it is read by line; a mode that means no way to read gives no piece. -/
def read (files : FileSystem) (home : Location) (path : String) (options : ReadOptions) : Pieces :=
  let opened := do
    let size ← options.chunkSize
    return (size, ← files.contentAt (← files.locate home path))
  match opened with
  | .error fault => { fault := some fault }
  | .ok (size, content) =>
      match options.mode.bind ReadMode.ofNumber? with
      | none => {}
      | some .byLine => Pieces.ofBytes .byLine size content
      | some .byChunk =>
          if !ReadOptions.isSize size then { fault := some .numberTooLarge }
          else if size = 0 then {}
          else Pieces.ofBytes .byChunk size content

end FileSystem

end LineCompiler
