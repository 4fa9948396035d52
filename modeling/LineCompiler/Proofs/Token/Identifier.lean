import LineCompiler.Proofs.Flat.Texts

/-!
# Identifiers

An identifier is a letter or an underscore with letters, digits and underscores behind it.  Other
than the names of the flat language, it may be the beginning of a word with a meaning of its own.
-/

namespace LineCompiler

open Text Number

/-- An identifier. -/
structure Identifier where
  first : Char
  rest : List Char
  first_ok : first.isAlpha = true ∨ first = '_'
  rest_ok : ∀ c ∈ rest, c.isAlphanum = true ∨ c = '_'

namespace Identifier

/-- The characters of an identifier. -/
def text (name : Identifier) : List Char :=
  name.first :: name.rest

/-- The identifier that is a letter. -/
def ofLetter (letter : Char) (hletter : letter.isAlpha = true) : Identifier where
  first := letter
  rest := []
  first_ok := Or.inl hletter
  rest_ok := List.forall_mem_nil _

/-- An identifier as the value of a token. -/
def atom (name : Identifier) : Atom :=
  .ofChars name.text

theorem isPart_of_mem (name : Identifier) : ∀ c ∈ name.text, Flat.isPart c = true := by
  intro c hc
  rcases List.mem_cons.mp hc with rfl | hc
  · rcases name.first_ok with hletter | hunderscore
    · exact Flat.isPart_of_isAlpha hletter
    · rw [hunderscore]
      decide
  · rcases name.rest_ok c hc with halphanum | hunderscore
    · simp [Flat.isPart, halphanum]
    · simp [Flat.isPart, hunderscore]

/-- A mark does not stand in an identifier. -/
theorem not_mem_text (name : Identifier) {mark : Char} (hmark : Flat.isPart mark = false) :
    mark ∉ name.text :=
  Flat.not_mem_of_isPart name.isPart_of_mem hmark

theorem integer?_text (name : Identifier) : integer? name.text = none :=
  integer?_of_name name.first_ok fun c hc =>
    isNumeralBlank_of_isBlank (Flat.isBlank_of_isPart (name.isPart_of_mem c hc))

end Identifier

end LineCompiler
