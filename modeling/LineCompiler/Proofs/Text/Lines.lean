import LineCompiler.Text.Newline

/-!
# Cutting a text at the end of a line

A text that is cut where one of its lines ends has the lines of its two parts.
-/

namespace LineCompiler.Text

theorem unifyNewlines_eq_self {text : List Char} (htext : '\r' ∉ text) :
    unifyNewlines text = text := by
  fun_induction unifyNewlines text with
  | case1 => rfl
  | case2 rest => exact absurd (List.mem_cons_self ..) htext
  | case3 c rest hother ih =>
      rw [List.mem_cons, not_or] at htext
      rw [if_neg (Ne.symm htext.1), ih htext.2]

/-- A text may be cut anywhere but between a carriage return and its line feed. -/
theorem unifyNewlines_append {front back : List Char}
    (hcut : front.getLast? = some '\r' → back.head? ≠ some '\n') :
    unifyNewlines (front ++ back) = unifyNewlines front ++ unifyNewlines back := by
  fun_induction unifyNewlines front with
  | case1 => rfl
  | case2 rest ih =>
      have hrest : rest.getLast? = some '\r' → back.head? ≠ some '\n' := by
        intro hlast
        refine hcut ?_
        rw [List.getLast?_cons, List.getLast?_cons, hlast]
        rfl
      rw [List.cons_append, List.cons_append, unifyNewlines, ih hrest, List.cons_append]
  | case3 c rest hother ih =>
      have hrest : rest.getLast? = some '\r' → back.head? ≠ some '\n' := by
        intro hlast
        refine hcut ?_
        rw [List.getLast?_cons, hlast]
        rfl
      have hpair : ∀ others, c = '\r' → rest ++ back = '\n' :: others → False := by
        rintro others rfl heq
        cases rest with
        | nil => exact hcut rfl (congrArg List.head? heq)
        | cons d rest => exact hother rest rfl (by rw [(List.cons.inj heq).1])
      rw [List.cons_append, unifyNewlines.eq_3 c (rest ++ back) hpair, ih hrest, List.cons_append]

/-- Whether a character ends a line. -/
def isNewline (c : Char) : Bool :=
  c = '\n' || c = '\r'

theorem head?_unifyNewlines {text : List Char} (htext : text.head?.any isNewline = true) :
    (unifyNewlines text).head? = some '\n' := by
  fun_cases unifyNewlines text with
  | case1 => cases htext
  | case2 rest => rfl
  | case3 c rest hother =>
      have hc : c = '\n' ∨ c = '\r' := by simpa [isNewline] using htext
      rcases hc with rfl | rfl <;> rfl

theorem getLast?_unifyNewlines {text : List Char} (htext : text.getLast?.any isNewline = true) :
    (unifyNewlines text).getLast? = some '\n' := by
  fun_induction unifyNewlines text with
  | case1 => cases htext
  | case2 rest ih =>
      by_cases hrest : rest = []
      · subst hrest
        rfl
      · rw [List.getLast?_cons_of_ne_nil (List.cons_ne_nil _ _), List.getLast?_cons_of_ne_nil hrest]
          at htext
        rw [List.getLast?_cons, ih htext]
        rfl
  | case3 c rest hother ih =>
      by_cases hrest : rest = []
      · subst hrest
        have hc : c = '\n' ∨ c = '\r' := by simpa [isNewline] using htext
        rcases hc with rfl | rfl <;> rfl
      · rw [List.getLast?_cons_of_ne_nil hrest] at htext
        rw [List.getLast?_cons, ih htext]
        rfl

theorem lines_ne_nil {text : List Char} (htext : text ≠ []) : lines text ≠ [] := by
  intro hlines
  have hflatten := flatten_lines text
  rw [hlines] at hflatten
  exact htext hflatten.symm

theorem nil_not_mem_lines (text : List Char) : [] ∉ lines text := by
  fun_induction lines text <;> simp_all

/-- A text after which a line starts: it is empty, or it ends with a line feed. -/
def EndsLine (text : List Char) : Prop :=
  text = [] ∨ text.getLast? = some '\n'

theorem lines_append {front : List Char} (hfront : EndsLine front) (back : List Char) :
    lines (front ++ back) = lines front ++ lines back := by
  induction front with
  | nil => rfl
  | cons c rest ih =>
      have hlast : (c :: rest).getLast? = some '\n' := hfront.resolve_left (List.cons_ne_nil c rest)
      rw [List.cons_append, lines, lines]
      by_cases hrest : rest = []
      · have hc : c = '\n' := by simpa [hrest] using hlast
        rw [if_pos hc, if_pos hc, hrest]
        rfl
      · rw [List.getLast?_cons_of_ne_nil hrest] at hlast
        rw [ih (Or.inr hlast)]
        split
        · rfl
        · -- The line of `c` goes on in the rest, which is not empty.
          cases hlines : lines rest with
          | nil => exact absurd hlines (lines_ne_nil hrest)
          | cons line others => rfl

theorem lines_single {text : List Char} (htext : '\n' ∉ text) :
    lines (text ++ ['\n']) = [text ++ ['\n']] := by
  induction text with
  | nil => rfl
  | cons c rest ih =>
      rw [List.mem_cons, not_or] at htext
      rw [List.cons_append, lines, if_neg (Ne.symm htext.1), ih htext.2]

theorem lines_unended {text : List Char} (hne : text ≠ []) (htext : '\n' ∉ text) :
    lines text = [text] := by
  induction text with
  | nil => exact absurd rfl hne
  | cons c rest ih =>
      rw [List.mem_cons, not_or] at htext
      rw [lines, if_neg (Ne.symm htext.1)]
      by_cases hrest : rest = []
      · subst hrest
        rfl
      · rw [ih hrest htext.2]

/-- A text is made of whole lines and of what is begun behind them. -/
theorem exists_lastLine (text : List Char) :
    ∃ front last, text = front ++ last ∧ EndsLine front ∧ '\n' ∉ last := by
  induction text with
  | nil => exact ⟨[], [], rfl, Or.inl rfl, by simp⟩
  | cons c rest ih =>
      obtain ⟨front, last, rfl, hfront, hlast⟩ := ih
      by_cases hc : c = '\n'
      · refine ⟨c :: front, last, rfl, Or.inr ?_, hlast⟩
        rcases hfront with rfl | hfront
        · rw [hc]
          rfl
        · rw [List.getLast?_cons, hfront]
          rfl
      · rcases hfront with rfl | hfront
        · refine ⟨[], c :: last, rfl, Or.inl rfl, ?_⟩
          rw [List.mem_cons, not_or]
          exact ⟨Ne.symm hc, hlast⟩
        · refine ⟨c :: front, last, rfl, Or.inr ?_, hlast⟩
          rw [List.getLast?_cons, hfront]
          rfl

end LineCompiler.Text
