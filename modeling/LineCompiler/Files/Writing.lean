import LineCompiler.Files.FileSystem
import LineCompiler.Text.Utf8

/-!
# Writing files

Before a file with slashes in its path is written, its path is created: below the working directory,
also if the path starts with a slash, each part that is not there yet is made, the last one as an
empty file and the others as directories.  An empty part is passed over, so that a path with a slash
at its end consists of directories only.  A path without a slash is opened as it is.
-/

namespace LineCompiler

namespace FileSystem

/-- The result of an action on a file system: what it gives or why it failed, what it told, and the
file system after it. -/
structure Action (α : Type) where
  outcome : Except Fault α
  notices : List String := []
  files : FileSystem

/-- The notice of the working directory. -/
def homeNotice (home : Location) : String :=
  debugMark ++ ": Current working directory '" ++ home.text ++ "'"

/-- The notice of a part of a path. -/
def partNotice (path : String) : String :=
  debugMark ++ "Processing directory '" ++ path ++ "'"

/-- The text of a path below the working directory. -/
def pathText (home : Location) (parts : List String) : String :=
  home.text ++ String.join (parts.map fun part => "/" ++ part)

/-- Makes what the parts of a path lead to; dots are left out. -/
def makePart (files : FileSystem) (home : Location) (parts : List String) (isFile : Bool) :
    Except Fault FileSystem :=
  let path := pathText home (parts.filter (· ≠ "."))
  if files.leads home path then .ok files
  else do
    let location ← files.locate home path
    if isFile then files.touch location else files.makeDirectory location

/-- Creates the rest of a path of which the parts `done` are there. -/
def createFrom (files : FileSystem) (home : Location) (done : List String) :
    List String → Action String
  | [] => { outcome := .ok (pathText home done), files }
  | part :: rest =>
      if part = "" then files.createFrom home done rest
      else
        let notice := partNotice (pathText home (done ++ [part]))
        match files.makePart home (done ++ [part]) rest.isEmpty with
        | .error fault => { outcome := .error fault, notices := [notice], files }
        | .ok files =>
            let after := files.createFrom home (done ++ [part]) rest
            { after with notices := notice :: after.notices }

/-- Creates a path below the working directory and gives its text. -/
def createPath (files : FileSystem) (home : Location) (path : String) : Action String :=
  let created := files.createFrom home [] (pathParts path)
  { created with notices := homeNotice home :: created.notices }

/-- Opens a path and gives its file a content. -/
def putAt (files : FileSystem) (home : Location) (path : String) (content : List UInt8) :
    Except Fault FileSystem := do
  files.putContent (← files.locate home path) content

/-- Writes a text to the file that a path names. -/
def write (files : FileSystem) (home : Location) (path text : String) : Action Unit :=
  let content := Text.encode text.toList
  let opened : Action String :=
    if path.toList.contains '/' then files.createPath home path
    else { outcome := .ok path, files }
  match opened.outcome with
  | .error fault => { opened with outcome := .error fault }
  | .ok path =>
      match opened.files.putAt home path content with
      | .error fault => { opened with outcome := .error fault }
      | .ok files => { opened with outcome := .ok (), files }

end FileSystem

end LineCompiler
