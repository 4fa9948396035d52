import LineCompiler.Proofs.Source.Comment
import LineCompiler.Proofs.Text.Trim

/-!
# The tail of a line

The look for a comment leaves a text with its two flags, or it has found a comment (`flagsAfter`).
If it does not leave the text within a string, then spaces and a comment behind the text are cut off
(`stripComment_append_tail`), and a line feed always is.
-/

namespace LineCompiler.Source

open Text

variable {text more : List Char}

/-- The flags with which the look for a comment leaves a text, or nothing if it has found one. -/
def flagsAfter (inString escaped : Bool) : List Char → Option (Bool × Bool)
  | [] => some (inString, escaped)
  | c :: rest =>
      if c = '\\' && !escaped then flagsAfter inString true rest
      else
        let inString := if c = doubleQuote && !escaped then !inString else inString
        if !inString && c = '/' && rest.head? = some '/' then none
        else flagsAfter inString false rest

/-- A text that does not end within a string. -/
def QuotesClosed (text : List Char) : Prop :=
  ∀ escaped, flagsAfter false false text ≠ some (true, escaped)

theorem codeFrom_append (hslashes : text.getLast? = some '/' → more.head? ≠ some '/')
    (inString escaped : Bool) :
    codeFrom inString escaped (text ++ more) =
      codeFrom inString escaped text ++
        (flagsAfter inString escaped text).elim [] fun flags => codeFrom flags.1 flags.2 more := by
  induction text generalizing inString escaped with
  | nil => rfl
  | cons c rest ih =>
      have hrest : rest.getLast? = some '/' → more.head? ≠ some '/' := by
        intro hlast
        refine hslashes ?_
        rw [List.getLast?_cons, hlast]
        rfl
      -- Whether a slash is followed by another one is seen within the text.
      have hpair : c = '/' → ((rest ++ more).head? = some '/' ↔ rest.head? = some '/') := by
        rintro rfl
        cases rest with
        | nil => simpa using hslashes rfl
        | cons d rest => rfl
      rw [List.cons_append, codeFrom, codeFrom, flagsAfter]
      split
      · rw [ih hrest, List.cons_append]
      · dsimp only
        generalize (if c = doubleQuote && !escaped then !inString else inString) = within
        have hsame : (!within && c = '/' && (rest ++ more).head? = some '/') =
            (!within && c = '/' && rest.head? = some '/') := by
          by_cases hc : c = '/'
          · simp only [hpair hc]
          · simp only [hc, decide_false, Bool.and_false, Bool.false_and]
        rw [hsame]
        split
        · rfl
        · rw [ih hrest, List.cons_append]

/-- A text is left as it is exactly if no comment is found in it. -/
theorem codeFrom_eq_self_iff (inString escaped : Bool) :
    codeFrom inString escaped text = text ↔ flagsAfter inString escaped text ≠ none := by
  induction text generalizing inString escaped with
  | nil => simp [codeFrom, flagsAfter]
  | cons c rest ih =>
      rw [codeFrom, flagsAfter]
      split
      · simp [ih]
      · dsimp only
        generalize (if c = doubleQuote && !escaped then !inString else inString) = within
        split
        · simp
        · simp [ih]

theorem codeFrom_isPrefix (text : List Char) (inString escaped : Bool) :
    codeFrom inString escaped text <+: text := by
  induction text generalizing inString escaped with
  | nil => exact List.prefix_rfl
  | cons c rest ih =>
      rw [codeFrom]
      split
      · exact List.cons_prefix_cons.mpr ⟨rfl, ih ..⟩
      · dsimp only
        generalize (if c = doubleQuote && !escaped then !inString else inString) = within
        split
        · exact List.nil_prefix
        · exact List.cons_prefix_cons.mpr ⟨rfl, ih ..⟩

theorem stripComment_append_of_all (hslashes : text.getLast? = some '/' → more.head? ≠ some '/')
    (hmore : ∀ inString escaped, flagsAfter false false text = some (inString, escaped) →
      (codeFrom inString escaped more).all isLineTail) :
    stripComment (text ++ more) = stripComment text := by
  rw [stripComment, stripComment, codeFrom_append hslashes]
  cases hflags : flagsAfter false false text with
  | none => rw [Option.elim_none, List.append_nil]
  | some flags => rw [Option.elim_some, trimEnd_append_of_all (hmore _ _ hflags)]

theorem codeFrom_spaces (inString escaped : Bool) (count : Nat) (rest : List Char) :
    codeFrom inString escaped (List.replicate count ' ' ++ rest) =
      List.replicate count ' ' ++ codeFrom inString (escaped && count = 0) rest := by
  induction count generalizing escaped with
  | zero => simp
  | succ count ih =>
      rw [List.replicate_succ, List.cons_append, codeFrom]
      simp [ih, doubleQuote]

theorem stripComment_append_feed (text : List Char) :
    stripComment (text ++ ['\n']) = stripComment text := by
  apply stripComment_append_of_all
  · exact fun _ => by decide
  · intro inString escaped _
    cases inString <;> cases escaped <;> rfl

/-- **Spaces and a comment at the end of a line are cut off.** -/
theorem stripComment_append_tail (hquotes : QuotesClosed text) (hlast : text.getLast? ≠ some '/')
    (count : Nat) (comment : List Char) :
    stripComment (text ++ (List.replicate count ' ' ++ '/' :: '/' :: comment)) =
      stripComment text := by
  apply stripComment_append_of_all
  · exact fun hslash => absurd hslash hlast
  · intro inString escaped hflags
    cases inString with
    | true => exact absurd hflags (hquotes escaped)
    | false =>
        rw [codeFrom_spaces, codeFrom]
        simp [doubleQuote, isLineTail]

theorem stripComment_append_spaces (text : List Char) (count : Nat) :
    stripComment (text ++ (List.replicate count ' ' ++ ['\n'])) = stripComment text := by
  apply stripComment_append_of_all
  · intro _
    cases count <;> simp [List.replicate_succ]
  · intro inString escaped _
    rw [codeFrom_spaces, codeFrom]
    cases inString <;> simp [doubleQuote, isLineTail, codeFrom]

end LineCompiler.Source
