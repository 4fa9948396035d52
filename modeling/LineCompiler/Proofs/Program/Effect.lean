import LineCompiler.Program.Reader
import LineCompiler.Proofs.Fault
import LineCompiler.Proofs.Token.Opener

/-!
# What a token line does to a reading

A token line does one of six things: it adds a statement, opens a conditional, closes a block, opens
the second block, closes a block and opens the second one, or does nothing.  Which of them depends
on the line alone and not on the lines read before it (`readLine_eq`), so that what happens to
blocks can be followed without looking at tokens.
-/

namespace LineCompiler

/-- What a token line does; `α` is what the line says of a statement or a condition. -/
inductive Effect (α : Type) where
  | pass
  | statement (content : α)
  | conditional (content : α)
  | close
  | closeElse
  | openElse

/-- A reading after a line with an effect. -/
def Reading.apply (reading : Reading) : Effect Node → Except Fault Reading
  | .pass => .ok reading
  | .statement node => reading.add node
  | .conditional condition => .ok (reading.openConditional condition)
  | .close => .ok reading.closeBlock
  | .closeElse => .ok reading.closeBlock.openElse
  | .openElse => .ok reading.openElse

namespace Reader

open Token (entryAt valueAt)

/-- The effect of a line that opens with a statement word. -/
def openerEffect (opener : Opener) (line : Atom) (tokens : List Token) :
    Except Fault (Effect Node) :=
  match opener with
  | .const => (constant line tokens).map .statement
  | .var => (variableNode line tokens).map .statement
  | .ptr => (pointer line tokens).map .statement
  | .syscall => (syscall tokens).map .statement
  | .cond => (condition tokens).map .conditional

/-- The effect of a line that opens with a keyword token of the given value. -/
def keywordEffect (line : Atom) (tokens : List Token) (value : Atom) : Except Fault (Effect Node) :=
  match Opener.ofToken? (.of .keyword value) with
  | some opener => openerEffect opener line tokens
  | none =>
      if [Atom.text "mul", .text "add", .text "sub", .text "div"].contains value then
        (operation tokens).map .statement
      else .ok .pass

/-- The effect of a line that opens with a symbol token of the given value. -/
def symbolEffect (tokens : List Token) (value : Atom) : Except Fault (Effect Node) :=
  (valueAt tokens (-1)).map fun last =>
    if value = .text Symbol.closeBrace.label then
      if last = .text Keyword.alt.label then .closeElse else .close
    else if last = .text Keyword.alt.label then .openElse else .pass

/-- The effect of a token line. -/
def effect (line : TokenLine) : Except Fault (Effect Node) :=
  if line.tokens.isEmpty then .ok .pass
  else
    (entryAt line.tokens 0).bind fun entry =>
      match entry.1 with
      | .symbol => symbolEffect line.tokens entry.2
      | .keyword => keywordEffect line.line.number line.tokens entry.2
      | _ => .ok .pass

private theorem readSymbol_eq (tokens : List Token) (value : Atom) (reading : Reading) :
    readSymbol tokens value reading = (symbolEffect tokens value).bind reading.apply := by
  unfold readSymbol symbolEffect
  cases valueAt tokens (-1) with
  | error fault => rfl
  | ok last =>
      by_cases hclose : value = .text Symbol.closeBrace.label <;>
        by_cases helse : last = .text Keyword.alt.label <;>
          simp only [hclose, helse, if_true, if_false, bind, pure, Except.bind, Except.pure,
            Except.map, Reading.apply]

theorem bind_map_statement (result : Except Fault Node) (reading : Reading) :
    result.bind reading.add = (result.map Effect.statement).bind reading.apply := by
  cases result <;> rfl

private theorem readKeyword_eq (line : Atom) (tokens : List Token) (value : Atom)
    (reading : Reading) :
    readKeyword line tokens value reading =
      (keywordEffect line tokens value).bind reading.apply := by
  have hcond : (condition tokens).map reading.openConditional =
      ((condition tokens).map Effect.conditional).bind reading.apply := by
    cases condition tokens <;> rfl
  cases hopener : Opener.ofToken? (.of .keyword value) with
  | some opener =>
      have hvalue := Opener.eq_of_ofToken? hopener
      injection hvalue with _ hvalue
      subst hvalue
      simp only [keywordEffect, hopener]
      cases opener with
      | const | var | ptr | syscall => exact bind_map_statement _ reading
      | cond => exact hcond
  | none =>
      have hvalue : ∀ opener : Opener, value ≠ .text opener.keyword.label := by
        rintro opener rfl
        exact absurd (hopener.symm.trans (Opener.ofToken?_keyword opener)) (by simp)
      simp only [keywordEffect, hopener]
      have hconst : value ≠ .text Keyword.const.label := hvalue .const
      have hvar : value ≠ .text Keyword.var.label := hvalue .var
      have hptr : value ≠ .text Keyword.ptr.label := hvalue .ptr
      have hsyscall : value ≠ .text Keyword.syscall.label := hvalue .syscall
      have hif : value ≠ .text Keyword.cond.label := hvalue .cond
      rw [readKeyword, if_neg hconst, if_neg hvar, if_neg hptr, if_neg hsyscall, if_neg hif]
      split
      · exact bind_map_statement _ reading
      · rfl

/-- **Reading a line applies its effect.** -/
theorem readLine_eq (reading : Reading) (line : TokenLine) :
    readLine reading line = (effect line).bind reading.apply := by
  unfold readLine effect
  split
  · rfl
  · cases entryAt line.tokens 0 with
    | error fault => rfl
    | ok entry =>
        obtain ⟨kind, value⟩ := entry
        cases kind with
        | symbol => exact readSymbol_eq line.tokens value reading
        | keyword => exact readKeyword_eq line.line.number line.tokens value reading
        | _ => rfl

/-- The effect of a line that opens with the token of a statement word. -/
theorem effect_opener (opener : Opener) (line : SourceLine) (tokens : List Token) :
    effect ⟨line, .keyword opener.keyword :: tokens⟩ =
      openerEffect opener line.number (.keyword opener.keyword :: tokens) := by
  cases opener <;> rfl

/-! ## Tokens from the end -/

/-- The token before the last one. -/
theorem valueAt_neg_two (front : List Token) (kind : TokenKind) (value : Atom) (last : Token) :
    valueAt (front ++ [.of kind value, last]) (-2) = .ok value := by
  have hindex : (front ++ [.of kind value, last]).length + (-2 : Int) = front.length := by
    rw [List.length_append, List.length_cons, List.length_singleton]
    omega
  have hitem : Text.itemAt? (front ++ [.of kind value, last]) (-2) = some (.of kind value) := by
    rw [Text.itemAt?, if_pos (by decide), hindex, if_neg (by omega), Int.toNat_natCast]
    simp
  rw [valueAt, entryAt, Token.tokenAt, hitem]
  rfl

/-- A call whose last two tokens are its variable and its semicolon. -/
theorem syscall_append {kind : TokenKind} {number error : Atom} {tokens : List Token}
    {nodes : List Node} (hnodes : arguments false tokens = .ok nodes) :
    syscall (.keyword .syscall :: .of kind number :: tokens ++
        [.of .identifier error, .symbol .semicolon]) =
      .ok (.syscall (if kind = .identifier then .ofName number else .bare number) (.list nodes)
        (.ofName error)) := by
  have hmiddle : (tokens ++ [Token.of .identifier error, .symbol .semicolon]).dropLast.dropLast =
      tokens := by
    rw [List.append_cons, List.dropLast_concat, List.dropLast_concat]
  unfold syscall
  rw [valueAt_neg_two]
  simp only [List.cons_append, List.drop_succ_cons, List.drop_zero, hmiddle, hnodes]
  rfl

end Reader

end LineCompiler
