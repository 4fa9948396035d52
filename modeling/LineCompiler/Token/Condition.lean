import LineCompiler.Token.Syscall

/-!
# Conditions

A condition compares two operands, as in `if (a >= 10) {`.  A comparison is spelled without a space
inside; one of one character has a space after it.  Once a comparison of two characters has been
read, further characters of that kind are passed over.
-/

namespace LineCompiler

namespace Condition

open Text Number

/-- The comparison that a spelling means. -/
def relation? (spelling : List Char) : Option Relation :=
  match spelling with
  | ['=', '='] => some .equal
  | ['!', '='] => some .notEqual
  | ['>'] => some .greater
  | ['>', '='] => some .greaterEqual
  | ['<'] => some .smaller
  | ['=', '<'] => some .smallerEqual
  | _ => none

/-- The characters that open a comparison. -/
def opensRelation (c : Char) : Bool :=
  c = '=' || c = '!' || c = '>' || c = '<'

/-- The token of an operand: a numeral, kept as text, or a name. -/
def operandToken (text : List Char) : Token :=
  if (integer? text).isSome then .of .number (.ofChars text)
  else if isPointNumeral text then .of .float (.ofChars text)
  else .of .identifier (.ofChars text)

/-- The spelling of the comparison that `c` opens, given what follows. -/
def spelling (line : Atom) (c : Char) (rest : List Char) : Except Fault (List Char) :=
  match rest.head? with
  | none => .error .missingCharacter
  | some next =>
      if next ≠ ' ' then .ok [c, next]
      else if c = '>' || c = '<' then .ok [c]
      else .error (.rejected (.conditionSpacing line))

/-- The tokens of a condition from a place on; `spelled` is the comparison read before, if any, and
`left` and `right` are the operands gathered so far.  The right operand counts only when the last
character belongs to it. -/
def elementsFrom (line : Atom) (spelled left right : List Char) :
    List Char → Except Fault (List Token)
  | [] => .ok []
  | c :: rest =>
      if c = ' ' then elementsFrom line spelled left right rest
      else if opensRelation c && spelled.isEmpty then
        match spelling line c rest with
        | .error fault => .error fault
        | .ok spelled =>
            match relation? spelled with
            | none =>
                .error (.rejected (.comparison (String.ofList spelled) line))
            | some relation =>
                (elementsFrom line spelled left right rest).map fun after =>
                  operandToken left :: .of (.relation relation) (.ofChars spelled) :: after
      else if opensRelation c && spelled.length = 2 then elementsFrom line spelled left right rest
      else
        let left := if spelled.isEmpty then left ++ [c] else left
        let right := if spelled.isEmpty then right else right ++ [c]
        if rest.isEmpty then .ok [operandToken right]
        else elementsFrom line spelled left right rest

/-- The tokens of a condition. -/
def elements (line : Atom) (text : List Char) : Except Fault (List Token) :=
  elementsFrom line [] [] [] text

/-- The characters of a text that stand in parentheses. -/
def inParens (inside : Bool) : List Char → List Char
  | [] => []
  | c :: rest =>
      if c = '(' then inParens true rest
      else if c = ')' then inParens false rest
      else if inside then c :: inParens inside rest
      else inParens inside rest

/-- The tokens of the head of a conditional: its parentheses, its condition and its brace. -/
def headElements (line : Atom) (content : List Char) : Except Fault (List Token) :=
  let text := Source.stripComment content
  (elements line (inParens false text)).map fun condition =>
    List.replicate (text.count '(') (.symbol .openParen) ++ condition ++
      (if text.contains ')' then [.symbol .closeParen] else []) ++
      (if text.contains openBrace then [.symbol .openBrace] else [])

/-- The tokens of the head of a conditional on a line whose tokens so far are `before`, if the line
opens with a conditional. -/
def read? (line : Atom) (before : List Token) (content : List Char) :
    Except Fault (Option (List Token)) := do
  if ← Token.opens Token.isConditional before then
    return some (← headElements line content)
  else return none

end Condition

end LineCompiler
