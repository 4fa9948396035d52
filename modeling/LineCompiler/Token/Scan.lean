import LineCompiler.Names
import LineCompiler.Source.Line
import LineCompiler.Token.Condition
import LineCompiler.Token.Declaration
import LineCompiler.Token.Operation

/-!
# Scanning one line

A line is scanned character by character.  Characters other than spaces and block marks join a word,
and each time the word is compared with the keywords and then with the names declared on earlier
lines.  A keyword that opens a statement hands the rest of the line to the reader of that statement,
which ends the scan.  The names have no part in a step itself: a step may call for a comparison with
them, and the comparison does nothing but add tokens.

Between lines only two things are kept: the names declared so far, and which blocks are open.
-/

namespace LineCompiler

open Text

/-- The blocks that are open. -/
structure Blocks where
  inIf : Bool := false
  inElse : Bool := false
  /-- Whether the block closed last was an if-block. -/
  lastWasIf : Bool := false
  deriving DecidableEq

namespace Scan

/-- How far the scan of a line has come. -/
structure State where
  word : List Char := []
  tokens : List Token := []
  blocks : Blocks
  /-- How many ends of statements have been reached. -/
  ends : Nat := 0

/-- Adds tokens at the end. -/
def State.push (state : State) (tokens : List Token) : State :=
  { state with tokens := state.tokens ++ tokens }

/-- What becomes of a scan at one character. -/
inductive Step where
  | next (state : State)
  /-- The word is compared with the declared names. -/
  | compare (state : State)
  /-- The line is done, and declares names. -/
  | done (state : State) (declared : Names)
  | fail (state : State) (fault : Fault)

/-- Whether a semicolon ends its statement, given the rest of the line: a line feed follows it, or a
comment stands later on the line.  A slash at the very end of the line leaves the question open. -/
def endsStatement (rest : List Char) : Except Fault Bool :=
  if rest.head? = some '\n' then .ok true
  else if rest.getLast? = some '/' then .error .missingCharacter
  else .ok (contains ['/', '/'] rest)

/-- The tokens of the name that a word is, once for each collection it is declared in. -/
def nameTokens (names : Names) (word : List Char) : List Token :=
  let name := String.ofList word
  (if names.constants.contains name then [.of .constantName (.text name)] else []) ++
    (if names.vars.contains name then [.of .variableName (.text name)] else []) ++
    (if names.pointers.contains name then [.of .pointerName (.text name)] else []) ++
    (if names.functions.contains name then [.of .functionName (.text name)] else [])

/-- Adds the tokens of the name that the word is. -/
def identify (names : Names) (state : State) : State :=
  state.push (nameTokens names state.word)

/-- Ends the line with the tokens of a statement, if its reader has succeeded. -/
def finish (state : State) (elements : Except Fault (List Token))
    (declared : List Token → Names) : Step :=
  match elements with
  | .error fault => .fail state fault
  | .ok elements => .done (state.push elements) (declared elements)

/-- Compares the word with the keywords, and leaves it to the declared names if it opens no
statement; `rest` follows the word on the line. -/
def recognise (line : SourceLine) (rest : List Char) (state : State) : Step :=
  let opened (keyword : Keyword) := state.push [.keyword keyword]
  match Keyword.ofWord? state.word with
  | some .const =>
      let state := opened .const
      finish state (Declaration.read .constants Token.isConstant state.tokens rest)
        fun elements => { constants := Declaration.namesOf elements }
  | some .var =>
      let state := opened .var
      finish state (Declaration.read .vars Token.isVariable state.tokens rest)
        fun elements => { vars := Declaration.namesOf elements }
  | some .ptr =>
      let state := opened .ptr
      finish state (Declaration.read .pointers Token.isPointer state.tokens rest)
        fun elements => { pointers := Declaration.namesOf elements }
  | some .syscall =>
      let state := opened .syscall
      finish state (Syscall.read line.number state.tokens rest) fun _ => {}
  | some .cond =>
      let state := { opened .cond with blocks := { state.blocks with inIf := true } }
      match Condition.read? line.number state.tokens line.content.toList with
      | .error fault => .fail state fault
      | .ok (some elements) => .done (state.push elements) {}
      | .ok none => .compare state
  | some .alt =>
      if state.blocks.lastWasIf then
        .compare { opened .alt with word := [], blocks := ⟨false, true, false⟩ }
      else .fail state (.rejected (.elseWithoutIf line.number))
  | some .mul | some .add | some .sub | some .div =>
      let state := opened .mul
      finish state (Operation.read state.tokens line.content.toList) fun _ => {}
  | some keyword => .compare { opened keyword with word := [] }
  | none => .compare state

/-- Scans a character that is neither a space nor the start of a comment and does not lack a
semicolon after it. -/
def scanMark (line : SourceLine) (state : State) (c : Char) (rest : List Char) : Step :=
  if c = openBrace then .next (state.push [.symbol .openBrace])
  else if c = closeBrace && state.blocks.inIf then
    .next { state.push [.symbol .closeBrace] with
      blocks := { state.blocks with inIf := false, lastWasIf := true } }
  else if c = closeBrace && state.blocks.inElse then
    .next { state.push [.symbol .closeBrace] with
      blocks := { state.blocks with inElse := false } }
  else recognise line rest { state with word := state.word ++ [c] }

/-- The state after a semicolon that ends its statement. -/
def State.endStatement (state : State) : State :=
  { state.push [.of .symbol (.text ";")] with word := [], ends := state.ends + 1 }

/-- Scans one character; `first` says whether it is the first of its line. -/
def step (line : SourceLine) (first : Bool) (state : State) (c : Char) (rest : List Char) : Step :=
  if c = ' ' then .next state
  else if c = '/' && rest.head? = some '/' then
    .done
      (state.push [.of (.mark .comment) (.text "//"), .of .comment (.ofChars (rest.drop 1))]) {}
  else if !first && c ≠ ';' && rest.head? = some '\n' then
    if c = openBrace then .next state
    else .fail state (.rejected (.missingSemicolon line.number))
  else if c = ';' then
    match endsStatement rest with
    | .error fault => .fail state fault
    | .ok true => scanMark line state.endStatement c rest
    | .ok false => scanMark line state c rest
  else scanMark line state c rest

/-- What the scan of a line gives. -/
structure Scanned where
  tokens : List Token
  declared : Names
  blocks : Blocks
  deriving DecidableEq

/-- How the scan of a line ends: how many ends of statements it has reached, and what it gives. -/
structure Result where
  ends : Nat
  outcome : Except Fault Scanned

/-- Scans the characters from a place of the line on. -/
def run (names : Names) (line : SourceLine) (first : Bool) (state : State) : List Char → Result
  | [] => ⟨state.ends, .ok ⟨state.tokens, {}, state.blocks⟩⟩
  | c :: rest =>
      match step line first state c rest with
      | .next state => run names line false state rest
      | .compare state => run names line false (identify names state) rest
      | .done state declared => ⟨state.ends, .ok ⟨state.tokens, declared, state.blocks⟩⟩
      | .fail state fault => ⟨state.ends, .error fault⟩

/-- Scans a line. -/
def scanLine (names : Names) (blocks : Blocks) (line : SourceLine) : Result :=
  run names line true { blocks } line.content.toList

end Scan

end LineCompiler
