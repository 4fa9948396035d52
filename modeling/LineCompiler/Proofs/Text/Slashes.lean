import LineCompiler.Text.Split

/-!
# Two slashes in a text

Where two slashes occur in a text, and what is in front of them.
-/

namespace LineCompiler.Text

variable {text : List Char}

theorem contains_append_slashes (front back : List Char) :
    contains ['/', '/'] (front ++ '/' :: '/' :: back) = true := by
  induction front with
  | nil => rfl
  | cons c rest ih => rw [List.cons_append, contains, ih, Bool.or_true]

theorem exists_of_contains (hcontains : contains ['/', '/'] text = true) :
    ∃ front back, text = front ++ '/' :: '/' :: back := by
  induction text with
  | nil => cases hcontains
  | cons c rest ih =>
      rw [contains, Bool.or_eq_true] at hcontains
      rcases hcontains with hhere | hlater
      · obtain ⟨back, hback⟩ := List.isPrefixOf_iff_prefix.mp hhere
        exact ⟨[], back, hback.symm⟩
      · obtain ⟨front, back, rfl⟩ := ih hlater
        exact ⟨c :: front, back, rfl⟩

theorem contains_eq_false (htext : '/' ∉ text) : contains ['/', '/'] text = false := by
  rw [Bool.eq_false_iff]
  intro hcontains
  obtain ⟨front, back, rfl⟩ := exists_of_contains hcontains
  exact htext (by simp)

/-- Two slashes that are not cut apart are in one of the two parts. -/
theorem contains_append {more : List Char}
    (hpair : text.getLast? = some '/' → more.head? ≠ some '/') :
    contains ['/', '/'] (text ++ more) =
      (contains ['/', '/'] text || contains ['/', '/'] more) := by
  induction text with
  | nil => rfl
  | cons c rest ih =>
      have hhere : ['/', '/'].isPrefixOf (c :: (rest ++ more)) =
          ['/', '/'].isPrefixOf (c :: rest) := by
        cases rest with
        | nil =>
            cases more with
            | nil => rfl
            | cons d more =>
                have hslashes : '/' = c → '/' ≠ d := by
                  rintro rfl rfl
                  exact hpair rfl rfl
                simpa [List.isPrefixOf] using hslashes
        | cons d rest => rfl
      have hrest : rest.getLast? = some '/' → more.head? ≠ some '/' := by
        intro hlast
        refine hpair ?_
        rw [List.getLast?_cons, hlast]
        rfl
      rw [List.cons_append, contains, contains, hhere, ih hrest, Bool.or_assoc]

theorem contains_append_of_not_mem {more : List Char} (hmore : '/' ∉ more) :
    contains ['/', '/'] (text ++ more) = contains ['/', '/'] text := by
  rw [contains_append fun _ hhead => hmore (List.mem_of_head? hhead), contains_eq_false hmore,
    Bool.or_false]

theorem length_before_lt (hcontains : contains ['/', '/'] text = true) :
    (before ['/', '/'] text).length < text.length := by
  induction text with
  | nil => cases hcontains
  | cons c rest ih =>
      rw [before]
      split
      · simp
      · rename_i hhere
        rw [contains, Bool.or_eq_true] at hcontains
        have hrest := ih (hcontains.resolve_left hhere)
        simpa using hrest

theorem before_eq_self (hcontains : contains ['/', '/'] text = false) :
    before ['/', '/'] text = text := by
  induction text with
  | nil => rfl
  | cons c rest ih =>
      rw [contains, Bool.or_eq_false_iff] at hcontains
      rw [before, hcontains.1, if_neg (by decide), ih hcontains.2]

end LineCompiler.Text
