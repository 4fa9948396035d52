import LineCompiler.Text.Blank

/-!
# Trimming

`trim` removes the characters of a class at both ends of a text.  The lemmas here say what one more
character at an end does: a character of the class is lost there, and any other one protects all
that stands behind it.
-/

namespace LineCompiler.Text

variable {p : Char → Bool} {c : Char} {text : List Char}

/-! ## Blanks -/

/-- The ASCII characters behind the space, without the last one, are no blanks. -/
theorem isBlank_of_visible (hlow : 0x21 ≤ c.toNat) (hhigh : c.toNat ≤ 0x7E) :
    isBlank c = false := by
  simp only [isBlank, inRanges, List.any_eq_false]
  intro range hrange
  have hapart : range.2 < 0x21 ∨ 0x7E < range.1 := by
    revert range
    decide
  simp only [Bool.and_eq_true, decide_eq_true_eq]
  omega

theorem isNumeralBlank_of_isBlank (hc : isBlank c = false) : isNumeralBlank c = false := by
  simp [isNumeralBlank, hc]

/-! ## The end of a text -/

@[simp] theorem trimEnd_nil : trimEnd p [] = [] := rfl

theorem trimEnd_append_singleton_of_not (hc : p c = false) :
    trimEnd p (text ++ [c]) = text ++ [c] := by
  simp [trimEnd, hc]

theorem trimEnd_append_singleton_of (hc : p c = true) :
    trimEnd p (text ++ [c]) = trimEnd p text := by
  simp [trimEnd, hc]

/-- A character outside the class protects what stands before it. -/
theorem trimEnd_append_of_getLast? {front : List Char} (hfront : front.getLast? = some c)
    (hc : p c = false) : trimEnd p (front ++ text) = front ++ trimEnd p text := by
  obtain ⟨others, rfl⟩ := List.getLast?_eq_some_iff.mp hfront
  rw [trimEnd, trimEnd, List.reverse_append, List.dropWhile_append]
  split
  · rename_i hall
    rw [List.isEmpty_iff.mp hall]
    simp [hc]
  · simp

theorem length_trimEnd_le (p : Char → Bool) (text : List Char) :
    (trimEnd p text).length ≤ text.length := by
  rw [trimEnd, List.length_reverse]
  exact Nat.le_trans (List.dropWhile_suffix p).length_le (Nat.le_of_eq List.length_reverse)

theorem trimEnd_append_of_all {more : List Char} (hmore : more.all p) :
    trimEnd p (text ++ more) = trimEnd p text := by
  have hdrop : ∀ chars : List Char, chars.all p → chars.dropWhile p = [] := by
    intro chars hchars
    induction chars with
    | nil => rfl
    | cons c rest ih =>
        rw [List.all_cons, Bool.and_eq_true] at hchars
        rw [List.dropWhile_cons_of_pos hchars.1, ih hchars.2]
  rw [trimEnd, trimEnd, List.reverse_append, List.dropWhile_append,
    hdrop more.reverse (by rwa [List.all_reverse]), List.isEmpty_nil, if_pos rfl]

/-- Trimming takes away characters of the class only. -/
theorem exists_trimEnd_append (p : Char → Bool) (text : List Char) :
    ∃ tail, text = trimEnd p text ++ tail ∧ ∀ c ∈ tail, p c = true := by
  refine ⟨(text.reverse.takeWhile p).reverse, ?_, ?_⟩
  · rw [trimEnd, ← List.reverse_append, List.takeWhile_append_dropWhile, List.reverse_reverse]
  · intro c hc
    exact List.all_eq_true.mp List.all_takeWhile c (List.mem_reverse.mp hc)

theorem of_getLast?_trimEnd (hlast : (trimEnd p text).getLast? = some c) : p c = false := by
  rw [trimEnd, List.getLast?_reverse] at hlast
  have hhead := List.head?_dropWhile_not p text.reverse
  rwa [hlast] at hhead

theorem trimEnd_eq_self (hlast : ∀ c, text.getLast? = some c → p c = false) :
    trimEnd p text = text := by
  cases hend : text.getLast? with
  | none => rw [List.getLast?_eq_none_iff.mp hend, trimEnd_nil]
  | some c =>
      obtain ⟨front, rfl⟩ := List.getLast?_eq_some_iff.mp hend
      exact trimEnd_append_singleton_of_not (hlast c hend)

theorem trimEnd_trimEnd (p : Char → Bool) (text : List Char) :
    trimEnd p (trimEnd p text) = trimEnd p text :=
  trimEnd_eq_self fun _ => of_getLast?_trimEnd

/-! ## Both ends of a text -/

@[simp] theorem trim_nil : trim p [] = [] := rfl

theorem trim_cons_of (hc : p c = true) : trim p (c :: text) = trim p text := by
  simp [trim, hc]

theorem trim_append_singleton_of (hc : p c = true) : trim p (text ++ [c]) = trim p text := by
  induction text with
  | nil => simp [trim, hc]
  | cons first rest ih =>
      by_cases hfirst : p first = true
      · rw [List.cons_append, trim_cons_of hfirst, trim_cons_of hfirst, ih]
      · simp only [trim, List.cons_append, List.dropWhile_cons_of_neg hfirst]
        rw [← List.cons_append, trimEnd_append_singleton_of hc]

theorem length_trim_le (p : Char → Bool) (text : List Char) : (trim p text).length ≤ text.length :=
  Nat.le_trans (length_trimEnd_le p _) (List.dropWhile_suffix p).length_le

/-- A last character outside the class is kept. -/
theorem getLast?_trim_append_singleton (hc : p c = false) :
    (trim p (text ++ [c])).getLast? = some c := by
  have hdrop : (text ++ [c]).dropWhile p = text.dropWhile p ++ [c] := by
    rw [List.dropWhile_append]
    split
    · rename_i hall
      rw [List.isEmpty_iff.mp hall]
      simp [hc]
    · rfl
  rw [trim, hdrop, trimEnd_append_singleton_of_not hc, List.getLast?_concat]

/-- A text that starts and ends with characters outside the class is not changed. -/
theorem trim_eq_self_of_ends {first last : Char} (hfirst : p first = false)
    (hlast : p last = false) (hhead : text.head? = some first)
    (hend : text.getLast? = some last) : trim p text = text := by
  obtain ⟨rest, rfl⟩ := List.head?_eq_some_iff.mp hhead
  obtain ⟨front, hfront⟩ := List.getLast?_eq_some_iff.mp hend
  rw [trim, List.dropWhile_cons_of_neg (by simp [hfirst]), hfront]
  exact trimEnd_append_singleton_of_not hlast

/-- A text without characters of the class is not changed. -/
theorem trim_eq_self (hclass : ∀ c ∈ text, p c = false) : trim p text = text := by
  cases text with
  | nil => rfl
  | cons first rest =>
      have hlast := List.getLast?_eq_some_getLast (List.cons_ne_nil first rest)
      exact trim_eq_self_of_ends (hclass first (List.mem_cons_self ..))
        (hclass _ (List.getLast_mem _)) rfl hlast

end LineCompiler.Text
