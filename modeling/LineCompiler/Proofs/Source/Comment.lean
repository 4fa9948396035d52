import LineCompiler.Proofs.Text.Trim
import LineCompiler.Source.Comment

/-!
# Texts without a comment

`stripComment` goes through a line with two flags: whether it stands in a string, and whether a
backslash stands just before.  Two kinds of lines pass it unchanged but for their ends: a line
without two slashes side by side, whatever its quotes and backslashes do, and a line whose slashes
all stand in one string between double quotes, where a backslash stands before every double quote
within.
-/

namespace LineCompiler.Source

open Text

/-- Two slashes side by side. -/
def slashes : List Char := ['/', '/']

/-! ## The part before the comment -/

theorem codeFrom_of_no_slashes {text : List Char} (htext : ¬ slashes <:+: text) :
    ∀ inString escaped, codeFrom inString escaped text = text := by
  induction text with
  | nil => intro inString escaped; rfl
  | cons c rest ih =>
      intro inString escaped
      have hrest : ¬ slashes <:+: rest := fun hwithin =>
        htext (hwithin.trans (List.suffix_cons ..).isInfix)
      have hpair : ¬ (c = '/' ∧ rest.head? = some '/') := by
        rintro ⟨rfl, hhead⟩
        obtain ⟨others, rfl⟩ := List.head?_eq_some_iff.mp hhead
        exact htext ⟨[], others, rfl⟩
      rw [codeFrom]
      split
      · rw [ih hrest]
      · simp only [Bool.and_eq_true, decide_eq_true_eq]
        rw [if_neg (fun hcomment => hpair ⟨hcomment.1.2, hcomment.2⟩), ih hrest]

/-- Characters without a meaning in the look for a comment. -/
def isInert (c : Char) : Bool :=
  c ≠ '/' && c ≠ '\\' && c ≠ doubleQuote

theorem codeFrom_append_of_inert {text : List Char} (htext : text.all isInert) (rest : List Char) :
    codeFrom false false (text ++ rest) = text ++ codeFrom false false rest := by
  induction text with
  | nil => rfl
  | cons c others ih =>
      simp only [List.all_cons, Bool.and_eq_true, isInert, decide_eq_true_eq, ne_eq] at htext
      obtain ⟨⟨⟨hslash, hbackslash⟩, hquote⟩, hothers⟩ := htext
      rw [List.cons_append, codeFrom]
      simp only [hslash, hbackslash, hquote, ih hothers, decide_false, Bool.false_and,
        Bool.and_false, Bool.false_eq_true, if_false, List.cons_append]

/-- A text where a backslash and the character behind it are a pair, and where the quote stands in
pairs only. -/
inductive Escaped (quote : Char) : List Char → Prop
  | nil : Escaped quote []
  | plain {c : Char} {rest : List Char} (hquote : c ≠ quote) (hbackslash : c ≠ '\\')
      (hrest : Escaped quote rest) :
      Escaped quote (c :: rest)
  | pair (c : Char) {rest : List Char} (hrest : Escaped quote rest) :
      Escaped quote ('\\' :: c :: rest)

theorem Escaped.of_not_mem {quote : Char} {text : List Char} (hquote : quote ∉ text)
    (hbackslash : '\\' ∉ text) :
    Escaped quote text := by
  induction text with
  | nil => exact .nil
  | cons c rest ih =>
      rw [List.mem_cons, not_or] at hquote hbackslash
      exact .plain (Ne.symm hquote.1) (Ne.symm hbackslash.1) (ih hquote.2 hbackslash.2)

/-- A string between double quotes is passed over, whatever slashes it has. -/
theorem codeFrom_append_string {body : List Char} (hbody : Escaped doubleQuote body)
    (rest : List Char) :
    codeFrom true false (body ++ doubleQuote :: rest) =
      body ++ doubleQuote :: codeFrom false false rest := by
  induction hbody with
  | nil => simp [codeFrom, doubleQuote]
  | plain hquote hbackslash hothers ih =>
      rw [List.cons_append, codeFrom]
      simp only [hquote, hbackslash, ih, decide_false,
        Bool.false_and, Bool.not_true, Bool.false_eq_true, if_false, List.cons_append]
  | pair c hothers ih =>
      rw [List.cons_append, List.cons_append, codeFrom, codeFrom]
      simp only [ih, decide_true, Bool.not_false, Bool.not_true, Bool.true_and, Bool.and_false,
        Bool.false_and, Bool.false_eq_true, if_true, if_false, List.cons_append]

/-- A text whose slashes all stand in one string has no comment. -/
theorem codeFrom_of_string {before body after : List Char} (hbefore : before.all isInert)
    (hbody : Escaped doubleQuote body) (hafter : ¬ slashes <:+: after) :
    codeFrom false false (before ++ doubleQuote :: (body ++ doubleQuote :: after)) =
      before ++ doubleQuote :: (body ++ doubleQuote :: after) := by
  have hopen : codeFrom false false (doubleQuote :: (body ++ doubleQuote :: after)) =
      doubleQuote :: codeFrom true false (body ++ doubleQuote :: after) := by
    simp [codeFrom, doubleQuote]
  rw [codeFrom_append_of_inert hbefore, hopen, codeFrom_append_string hbody,
    codeFrom_of_no_slashes hafter]

/-! ## The whole line -/

/-- What stands before a text, without quotes and slashes and with no blank at its end, has no part
in the look for a comment. -/
theorem stripComment_append {front : List Char} {last : Char} (hfront : front.all isInert)
    (hlast : front.getLast? = some last) (htail : isLineTail last = false) (rest : List Char) :
    stripComment (front ++ rest) = front ++ stripComment rest := by
  rw [stripComment, stripComment, codeFrom_append_of_inert hfront,
    trimEnd_append_of_getLast? hlast htail, List.append_assoc]

/-- A line without a comment whose last character before the line feed is no blank stays as it
is. -/
theorem stripComment_eq_self {text : List Char} {last : Char}
    (hcode : codeFrom false false (text ++ [last, '\n']) = text ++ [last, '\n'])
    (hlast : isLineTail last = false) :
    stripComment (text ++ [last, '\n']) = text ++ [last, '\n'] := by
  have hends : text ++ [last, '\n'] = (text ++ [last]) ++ ['\n'] := by simp
  rw [stripComment, hcode, hends, trimEnd_append_singleton_of (by decide),
    trimEnd_append_singleton_of_not hlast]

end LineCompiler.Source
