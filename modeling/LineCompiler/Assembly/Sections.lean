import LineCompiler.Fault
import LineCompiler.Text.Split

/-!
# Sections

Assembly code is kept in three sections.  A section is a list of labelled blocks in the order in
which their labels were first named; code added under a label goes to the end of its block.  Empty
lines of code are dropped, but a label that is named has its block even without code.
-/

namespace LineCompiler

/-- The sections of assembly code. -/
inductive SectionName where
  | data | bss | text
  deriving DecidableEq

/-- The name of a section. -/
def SectionName.spelling : SectionName → String
  | .data => "data"
  | .bss => "bss"
  | .text => "text"

/-- The section that a name means. -/
def SectionName.ofSpelling? (name : String) : Option SectionName :=
  [SectionName.data, .bss, .text].find? fun candidate => candidate.spelling = name

/-- Lines of code under a label. -/
structure Block where
  label : String
  lines : List String := []
  deriving DecidableEq

/-- The label of code that belongs to no label. -/
def noLabel : String := "no_label"

/-- The text of a block: nothing if it has no code, and no label for code that belongs to none. -/
def Block.text (block : Block) : String :=
  if block.lines.isEmpty then ""
  else if block.label = noLabel then String.join block.lines
  else
    (if block.label.toList.contains ':' then block.label else block.label ++ ":") ++ "\n" ++
      String.join block.lines

/-- Code that is handed over: one line, several lines, or something that has no lines. -/
inductive Code where
  | line (text : String)
  | lines (texts : List String)
  | other
  deriving DecidableEq

/-- The lines of code that is handed over. -/
def Code.all : Code → List String
  | .line text => [text]
  | .lines texts => texts
  | .other => []

/-- Adds code under a label. -/
def addCode (label : String) (code : List String) : List Block → List Block
  | [] => [⟨label, code.filter (· ≠ "")⟩]
  | block :: rest =>
      if block.label = label then
        { block with lines := block.lines ++ code.filter (· ≠ "") } :: rest
      else block :: addCode label code rest

/-- The text of a section: nothing if it has no label. -/
def sectionText (name : SectionName) (blocks : List Block) : String :=
  if blocks.isEmpty then ""
  else "section ." ++ name.spelling ++ "\n" ++ String.join (blocks.map Block.text)

/-- The three sections. -/
structure Sections where
  data : List Block := []
  bss : List Block := []
  text : List Block := []
  deriving DecidableEq

namespace Sections

/-- The blocks of a section. -/
def get (sections : Sections) : SectionName → List Block
  | .data => sections.data
  | .bss => sections.bss
  | .text => sections.text

/-- Adds code to a section under a label. -/
def add (sections : Sections) (name : SectionName) (label : String) (code : List String) :
    Sections :=
  match name with
  | .data => { sections with data := addCode label code sections.data }
  | .bss => { sections with bss := addCode label code sections.bss }
  | .text => { sections with text := addCode label code sections.text }

/-- Adds code to the section of the given name, under a label or under none. -/
def addNamed (sections : Sections) (name : String) (label : Option String) (code : Code) :
    Except Fault Sections :=
  match SectionName.ofSpelling? name with
  | none => .error (.unknownSection name)
  | some found => .ok (sections.add found (label.getD noLabel) code.all)

/-- The whole assembly text. -/
def assembly (sections : Sections) : String :=
  sectionText .data sections.data ++ sectionText .bss sections.bss ++
    sectionText .text sections.text

end Sections

end LineCompiler
