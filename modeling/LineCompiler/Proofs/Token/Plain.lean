import LineCompiler.Proofs.Fault
import LineCompiler.Proofs.Token.Declaration
import LineCompiler.Proofs.Token.Opener

/-!
# The tokens that readers make

The reader of a statement makes elements only: none of them is blank, and none is that of a keyword,
of a declared name or of a closing brace.  So a token of a declared name on a scanned line always
comes from a comparison with the names, and no reader of a statement has a part in the blocks of a
source.
-/

namespace LineCompiler

/-- The kinds of the tokens of declared names. -/
def TokenKind.isName : TokenKind → Bool
  | .constantName | .variableName | .pointerName | .functionName => true
  | _ => false

namespace Token

/-- A token that is neither blank nor that of a declared name. -/
def isPlain : Token → Bool
  | .blank => false
  | .of kind _ => !kind.isName

@[simp] theorem isPlain_of (kind : TokenKind) (value : Atom) :
    (Token.of kind value).isPlain = !kind.isName :=
  rfl

@[simp] theorem isPlain_symbol (symbol : Symbol) : (Token.symbol symbol).isPlain = true :=
  rfl

@[simp] theorem isPlain_keyword (keyword : Keyword) : (Token.keyword keyword).isPlain = true :=
  rfl

/-- A token as the reader of a statement makes them. -/
def isElement : Token → Bool
  | .blank => false
  | .of kind value =>
      !kind.isName && kind ≠ .keyword && (kind ≠ .symbol || value ≠ .text Symbol.closeBrace.label)

@[simp] theorem isElement_of {kind : TokenKind} (hkind : kind ≠ .symbol) (value : Atom) :
    (Token.of kind value).isElement = (!kind.isName && kind ≠ .keyword) := by
  simp [isElement, hkind]

@[simp] theorem isElement_symbol (symbol : Symbol) :
    (Token.symbol symbol).isElement = decide (symbol ≠ .closeBrace) := by
  cases symbol <;> rfl

private theorem isPlain_of_isElement {token : Token} (htoken : token.isElement) :
    token.isPlain := by
  cases token with
  | blank => exact htoken
  | of kind value =>
      simp only [isElement, Bool.and_eq_true] at htoken
      exact htoken.1.1

theorem all_isPlain_of_all_isElement {tokens : List Token} (htokens : tokens.all isElement) :
    tokens.all isPlain := by
  rw [List.all_eq_true] at htokens ⊢
  exact fun token htoken => isPlain_of_isElement (htokens token htoken)

theorem blank_not_mem_of_all_isElement {tokens : List Token} (htokens : tokens.all isElement) :
    .blank ∉ tokens := by
  intro hmem
  exact absurd (List.all_eq_true.mp htokens _ hmem) (by decide)

end Token

/-! ## Declarations -/

namespace Declaration

variable {form : Form} {elements : List Token}

private theorem isElement_of_isPart {token : Token} (htoken : isPart token) : token.isElement := by
  unfold isPart at htoken
  split at htoken
  · rfl
  · rfl
  · rfl
  · rfl
  · rw [of_decide_eq_true htoken]
    rfl

private theorem all_isElement_elementsAfter (helements : elements.all Token.isElement)
    (word : List Char) (c : Char) (rest : List Char) :
    (elementsAfter form elements word c rest).all Token.isElement := by
  obtain ⟨more, hafter, hmore⟩ := elementsAfter_eq_append form elements word c rest
  rw [hafter, List.all_append, Bool.and_eq_true]
  constructor
  · split
    · rfl
    · exact helements
  · rw [List.all_eq_true] at hmore ⊢
    exact fun token htoken => isElement_of_isPart (hmore token htoken)

theorem all_isElement_elementsFrom (helements : elements.all Token.isElement)
    (word rest : List Char) : (elementsFrom form elements word rest).all Token.isElement := by
  induction rest generalizing elements word with
  | nil => exact helements
  | cons c rest ih =>
      have hafter : (elementsAfter form elements word c rest).all Token.isElement :=
        all_isElement_elementsAfter helements word c rest
      simp only [elementsFrom]
      split
      · exact ih helements word
      · split
        · exact hafter
        · exact ih hafter _

end Declaration

/-! ## System calls -/

namespace Syscall

/-- The fields of the arguments of a system call: those between the first and the last one. -/
def argumentFields (text : List Char) : List (List Char) :=
  ((Text.splitOn ',' (Source.stripComment text)).drop 1).dropLast

private theorem isElement_numberToken {line : Atom} {field : List Char} {number : Token}
    (hnumber : numberToken line field = .ok number) : number.isElement := by
  unfold numberToken at hnumber
  split at hnumber
  · cases hnumber
    rfl
  · split at hnumber
    · cases hnumber
    · cases hnumber
      rfl

theorem errorTokens_eq_ok {field : List Char} {tokens : List Token}
    (htokens : errorTokens field = .ok tokens) :
    ∃ name ending, (ending = [] ∨ ending = [.symbol .semicolon]) ∧
      tokens = .of .identifier name :: ending := by
  unfold errorTokens at htokens
  dsimp only at htokens
  split at htokens
  · cases htokens
  · split at htokens
    · cases htokens
      exact ⟨_, _, Or.inr rfl, rfl⟩
    · cases htokens
      exact ⟨_, _, Or.inl rfl, rfl⟩

/-- What the elements of a system call are made of. -/
theorem elements_eq_ok {line : Atom} {text : List Char} {elements : List Token}
    (helements : Syscall.elements line text = .ok elements) :
    ∃ number error, number.isElement ∧ (argumentFields text).length ≤ maxArguments ∧
      errorTokens ((Text.splitOn ',' (Source.stripComment text)).getLastD []) = .ok error ∧
      elements = number :: (argumentFields text).flatMap argumentTokens ++ error := by
  obtain ⟨number, hnumber, helements⟩ := exists_of_bind_eq_ok helements
  dsimp only at helements
  split at helements
  · cases helements
  · rename_i harity
    obtain ⟨error, herror, helements⟩ := exists_of_bind_eq_ok helements
    cases helements
    exact ⟨number, error, isElement_numberToken hnumber, Nat.not_lt.mp harity, herror, rfl⟩

private theorem all_isElement_argumentTokens (field : List Char) :
    (argumentTokens field).all Token.isElement := by
  have htoken : ∀ text, (argumentToken text).isElement := by
    intro text
    unfold argumentToken
    repeat' split
    all_goals rfl
  unfold argumentTokens
  split <;> simp [htoken, TokenKind.isName]

theorem all_isElement_elements {line : Atom} {text : List Char} {elements : List Token}
    (helements : Syscall.elements line text = .ok elements) : elements.all Token.isElement := by
  obtain ⟨number, error, hnumber, -, herror, rfl⟩ := elements_eq_ok helements
  obtain ⟨name, ending, hending, rfl⟩ := errorTokens_eq_ok herror
  have harguments : ((argumentFields text).flatMap argumentTokens).all Token.isElement := by
    rw [List.all_flatMap, List.all_eq_true]
    exact fun field _ => all_isElement_argumentTokens field
  have hendings : ending.all Token.isElement := by
    rcases hending with rfl | rfl <;> rfl
  have hname : (Token.of .identifier name).isElement := rfl
  simp only [List.cons_append, List.all_cons, List.all_append, hnumber, harguments, hname, hendings,
    Bool.and_self]

end Syscall

/-! ## Conditions and operations -/

namespace Condition

theorem isElement_operandToken (text : List Char) : (operandToken text).isElement := by
  unfold operandToken
  repeat' split
  all_goals rfl

theorem all_isElement_elementsFrom {line : Atom} {spelled left right text : List Char}
    {elements : List Token} (helements : elementsFrom line spelled left right text = .ok elements) :
    elements.all Token.isElement := by
  induction text generalizing spelled left right elements with
  | nil =>
      cases helements
      rfl
  | cons c rest ih =>
      simp only [elementsFrom] at helements
      split at helements
      · exact ih helements
      · split at helements
        · split at helements
          · exact nomatch helements
          · split at helements
            · exact nomatch helements
            · obtain ⟨after, hafter, rfl⟩ := exists_of_map_eq_ok helements
              rw [List.all_cons, List.all_cons, isElement_operandToken, ih hafter]
              rfl
        · split at helements
          · exact ih helements
          · split at helements
            · cases helements
              rw [List.all_cons, isElement_operandToken]
              rfl
            · exact ih helements

theorem all_isElement_headElements {line : Atom} {content : List Char} {elements : List Token}
    (helements : headElements line content = .ok elements) : elements.all Token.isElement := by
  obtain ⟨condition, hcondition, rfl⟩ := exists_of_map_eq_ok helements
  simp only [List.all_append, Bool.and_eq_true]
  refine ⟨⟨⟨?_, all_isElement_elementsFrom hcondition⟩, ?_⟩, ?_⟩
  · simp [List.all_replicate]
  · split <;> rfl
  · split <;> rfl

end Condition

namespace Operation

theorem isElement_operandToken (text : List Char) : (operandToken text).isElement := by
  unfold operandToken
  split <;> rfl

private theorem all_isElement_pieceTokens (previous piece : List Char) :
    (pieceTokens previous piece).all Token.isElement := by
  simp only [pieceTokens, List.all_append, Bool.and_eq_true]
  refine ⟨⟨⟨?_, ?_⟩, ?_⟩, ?_⟩
  all_goals split <;> simp [isElement_operandToken, TokenKind.isName]

private theorem all_isElement_readPieces {elements : List Token}
    (helements : elements.all Token.isElement) (previous : List Char) (pieces : List (List Char)) :
    (readPieces previous elements pieces).all Token.isElement := by
  induction pieces generalizing previous elements with
  | nil => exact helements
  | cons piece rest ih =>
      have hafter : (elements ++ pieceTokens previous piece).all Token.isElement := by
        rw [List.all_append, helements, all_isElement_pieceTokens]
        rfl
      simp only [readPieces]
      split
      · exact ih helements piece
      · split
        · exact hafter
        · exact ih hafter piece

theorem all_isElement_elements (line : List Char) : (Operation.elements line).all Token.isElement :=
  all_isElement_readPieces rfl _ _

end Operation

/-! ## Statements -/

namespace Opener

theorem all_isElement_elements {opener : Opener} {line : SourceLine} {rest : List Char}
    {elements : List Token} (helements : opener.elements line rest = .ok elements) :
    elements.all Token.isElement := by
  cases opener with
  | const | var | ptr =>
      cases helements
      exact Declaration.all_isElement_elementsFrom rfl _ _
  | syscall => exact Syscall.all_isElement_elements helements
  | cond => exact Condition.all_isElement_headElements helements

end Opener

end LineCompiler
