import LineCompiler.Source.Comment
import LineCompiler.Token.Basic

/-!
# Declarations

A declaration is a name, a size, a type and a value, as in `x[2]: int = 3;`.  The characters of the
line are visited one by one.  The name is what stands before the first colon or bracket; every colon
starts a look for a type and every equals sign a look for a value, until the declaration is
complete.

Constants, variables and pointers differ in three points, which make up a `Form`: whether there are
sizes, which characters end a type, and how many elements are enough.
-/

namespace LineCompiler

namespace Declaration

open Text

/-- What sets one sort of declaration apart. -/
structure Form where
  /-- Whether a declaration of this form has a size. -/
  sized : Bool
  /-- The characters that end a type. -/
  typeEnds : List Char
  /-- A declaration is complete with this many elements or one more. -/
  complete : Nat

/-- The form of constants, which have a value. -/
def Form.constants : Form where
  sized := true
  typeEnds := ['=']
  complete := 4

/-- The form of variables, which may lack a value. -/
def Form.vars : Form where
  sized := true
  typeEnds := ['=', ';', '\n']
  complete := 4

/-- The form of pointers, which have no size and may lack a value. -/
def Form.pointers : Form where
  sized := false
  typeEnds := ['=', ';', '\n']
  complete := 3

/-- The size of a declaration that gives none. -/
def defaultSize : Int := 8

/-! ## Sizes, types and values -/

/-- The characters of a size: what stands before a closing bracket with a colon after it, without
spaces. -/
def sizeText : List Char → List Char
  | [] => []
  | c :: rest =>
      if c = ']' && rest.head? = some ':' then []
      else if c = ' ' then sizeText rest
      else c :: sizeText rest

/-- A type without its spaces, the character that ends it, and what follows; nothing if no character
ends it. -/
def typeText? (ends : List Char) : List Char → Option (List Char × Char × List Char)
  | [] => none
  | c :: rest =>
      if ends.contains c then some ([], c, rest)
      else
        (typeText? ends rest).map fun found =>
          (if c = ' ' then found.1 else c :: found.1, found.2)

/-- The quote in force after `c`: a quote of either kind opens a string, and the same one closes
it. -/
def quoteAfter (quote : Option Char) (c : Char) : Option Char :=
  match quote with
  | none => if c = singleQuote || c = doubleQuote then some c else none
  | some opened => if c = opened then none else some opened

/-- A value and the character that ends it: a semicolon or a line feed outside quotes. -/
def valueText? (quote : Option Char) : List Char → Option (List Char × Char)
  | [] => none
  | c :: rest =>
      let quote := quoteAfter quote c
      if quote.isNone && (c = ';' || c = '\n') then some ([], c)
      else (valueText? quote rest).map fun found => (c :: found.1, found.2)

/-- The elements after a colon. -/
def withType (form : Form) (elements : List Token) (rest : List Char) : List Token :=
  match typeText? form.typeEnds rest with
  | none => elements
  | some (type, ending, following) =>
      elements ++
        (if form.sized && elements.length = 1 then
          [.of .dynamicSize (.integer defaultSize)] else []) ++
        [.of .type (.ofChars type)] ++
        (if ending = ';' && following.head? = some '\n' then [.symbol .semicolon] else [])

/-- The elements after an equals sign. -/
def withValue (elements : List Token) (rest : List Char) : List Token :=
  match valueText? none rest with
  | none => elements
  | some (value, ending) =>
      elements ++ [.of .value (.ofChars (strip value))] ++
        (if ending = ';' then [.symbol .semicolon] else [])

/-! ## The elements of a declaration -/

/-- Whether `c` ends the name, given the elements so far. -/
def endsName (elements : List Token) (c : Char) : Bool :=
  elements.isEmpty && (c = ':' || c = '[')

/-- The elements after the character `c`, before which `word` has been gathered. -/
def elementsAfter (form : Form) (elements : List Token) (word : List Char) (c : Char)
    (rest : List Char) : List Token :=
  let named := if endsName elements c then [.of .word (.ofChars word)] else elements
  let sized :=
    if form.sized && endsName elements c && c = '[' then
      named ++ [.of .size (.ofChars (sizeText rest))] else named
  let typed := if c = ':' then withType form sized rest else sized
  if c = '=' then withValue typed rest else typed

/-- The word gathered after the character `c`. -/
def wordAfter (form : Form) (elements : List Token) (word : List Char) (c : Char) : List Char :=
  let word := if endsName elements c then [] else word
  if c = ':' || (form.sized && (c = '[' || c = ']')) then word else word ++ [c]

/-- The elements found from a place in the line on. -/
def elementsFrom (form : Form) (elements : List Token) (word : List Char) : List Char → List Token
  | [] => elements
  | c :: rest =>
      if c = ' ' then elementsFrom form elements word rest
      else
        let after := elementsAfter form elements word c rest
        if after.length = form.complete || after.length = form.complete + 1 then after
        else elementsFrom form after (wordAfter form elements word c) rest

/-- The elements of the declaration in the text after its keyword. -/
def elements (form : Form) (text : List Char) : List Token :=
  elementsFrom form [] [] (Source.stripComment text)

/-- The elements of a declaration on a line whose tokens so far are `before`: none, unless the line
opens with the keyword that `test` asks for. -/
def read (form : Form) (test : Token → Except Fault Bool) (before : List Token)
    (text : List Char) : Except Fault (List Token) :=
  (Token.opens test before).map fun opens => if opens then elements form text else []

/-- The names that the elements of a declaration declare. -/
def namesOf (elements : List Token) : List String :=
  elements.filterMap fun token =>
    match token with
    | .of .word (.text name) => some name
    | _ => none

end Declaration

end LineCompiler
