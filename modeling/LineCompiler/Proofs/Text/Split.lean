import LineCompiler.Text.Split

/-!
# Splitting at separators

A text that is put together from pieces without the separator falls into these pieces again.
-/

namespace LineCompiler.Text

variable {separator : Char}

theorem splitOn_of_not_mem {text : List Char} (htext : separator ∉ text) :
    splitOn separator text = [text] := by
  induction text with
  | nil => rfl
  | cons c rest ih =>
      rw [List.mem_cons, not_or] at htext
      rw [splitOn, if_neg (Ne.symm htext.1), ih htext.2]

theorem splitOn_append_cons {piece : List Char} (hpiece : separator ∉ piece)
    (rest : List Char) :
    splitOn separator (piece ++ separator :: rest) = piece :: splitOn separator rest := by
  induction piece with
  | nil => simp [splitOn]
  | cons c others ih =>
      rw [List.mem_cons, not_or] at hpiece
      rw [List.cons_append, splitOn, if_neg (Ne.symm hpiece.1), ih hpiece.2]

/-- Pieces with a separator in front of each fall apart again. -/
theorem splitOn_append_flatMap {first : List Char} (hfirst : separator ∉ first)
    {pieces : List (List Char)} (hpieces : ∀ piece ∈ pieces, separator ∉ piece) :
    splitOn separator (first ++ pieces.flatMap (separator :: ·)) = first :: pieces := by
  induction pieces generalizing first with
  | nil => simpa using splitOn_of_not_mem hfirst
  | cons piece others ih =>
      rw [List.flatMap_cons, List.cons_append, splitOn_append_cons hfirst,
        ih (hpieces piece (List.mem_cons_self ..))
          fun other hother => hpieces other (List.mem_cons_of_mem _ hother)]

/-- What stands before a text joins its first piece. -/
theorem drop_one_splitOn_append {front : List Char} (hfront : separator ∉ front)
    (text : List Char) :
    (splitOn separator (front ++ text)).drop 1 = (splitOn separator text).drop 1 := by
  induction front with
  | nil => rfl
  | cons c others ih =>
      rw [List.mem_cons, not_or] at hfront
      rw [List.cons_append, splitOn, if_neg (Ne.symm hfront.1), ← ih hfront.2]
      cases splitOn separator (others ++ text) <;> rfl

/-- What stands behind a text joins its last piece. -/
theorem splitOn_append_tail {tail : List Char} (htail : separator ∉ tail) (text : List Char) :
    ∃ pieces last, splitOn separator text = pieces ++ [last] ∧
      splitOn separator (text ++ tail) = pieces ++ [last ++ tail] := by
  induction text with
  | nil => exact ⟨[], [], rfl, splitOn_of_not_mem htail⟩
  | cons c rest ih =>
      obtain ⟨pieces, last, hrest, happend⟩ := ih
      rw [List.cons_append, splitOn, splitOn, hrest, happend]
      split
      · exact ⟨[] :: pieces, last, rfl, rfl⟩
      · cases pieces with
        | nil => exact ⟨[], c :: last, rfl, rfl⟩
        | cons piece pieces => exact ⟨(c :: piece) :: pieces, last, rfl, rfl⟩

theorem getLastD_splitOn_append {tail : List Char} (htail : separator ∉ tail) (text : List Char) :
    ∃ last, (splitOn separator (text ++ tail)).getLastD [] = last ++ tail := by
  obtain ⟨pieces, last, -, happend⟩ := splitOn_append_tail htail text
  exact ⟨last, by rw [happend, List.getLastD_concat]⟩

end LineCompiler.Text
