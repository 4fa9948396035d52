/-!
# Line ends

A carriage return with a line feed after it, and a carriage return alone, both count as one line
feed.  Lines end at line feeds only, and a line keeps the line feed that ends it.
-/

namespace LineCompiler.Text

/-- Every line end written as a line feed. -/
def unifyNewlines : List Char → List Char
  | [] => []
  | '\r' :: '\n' :: rest => '\n' :: unifyNewlines rest
  | c :: rest => (if c = '\r' then '\n' else c) :: unifyNewlines rest

/-- The lines of a text, each with its line feed; the last one may lack it, and none is empty. -/
def lines : List Char → List (List Char)
  | [] => []
  | c :: rest =>
      if c = '\n' then ['\n'] :: lines rest
      else
        match lines rest with
        | [] => [[c]]
        | line :: others => (c :: line) :: others

theorem flatten_lines (text : List Char) : (lines text).flatten = text := by
  induction text with
  | nil => rfl
  | cons c rest ih =>
      rw [lines]
      split
      · rename_i newline
        simp [ih, newline]
      · split
        · rename_i empty
          rw [empty] at ih
          simpa using ih
        · rename_i line others split
          rw [split] at ih
          simpa using ih

end LineCompiler.Text
