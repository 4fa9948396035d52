import LineCompiler.Proofs.Flat.Language

/-!
# Which characters the texts of the flat language have

The readers of the flat language look for marks such as colons, commas and quotes.  Names, numerals
and types consist of letters, digits and underscores, and values are trimmed, so that no reader
meets a mark where there is none.
-/

namespace LineCompiler.Flat

open Text Number

/-! ## Letters, digits and underscores -/

/-- The characters of names, numerals and types. -/
def isPart (c : Char) : Bool :=
  c.isAlphanum || c = '_'

theorem isPart_of_isAlpha {c : Char} (hc : c.isAlpha = true) : isPart c = true := by
  simp [isPart, Char.isAlphanum, hc]

theorem isPart_of_isDigit {c : Char} (hc : c.isDigit = true) : isPart c = true := by
  simp [isPart, Char.isAlphanum, hc]

private theorem isPart_bounds {c : Char} (hc : isPart c = true) : 48 ≤ c.toNat ∧ c.toNat ≤ 122 := by
  simp only [isPart, Char.isAlphanum, Bool.or_eq_true, decide_eq_true_eq] at hc
  rcases hc with (hletter | hdigit) | rfl
  · have := isAlpha_bounds hletter
    omega
  · have := isDigit_bounds hdigit
    omega
  · decide

theorem isBlank_of_isPart {c : Char} (hc : isPart c = true) : isBlank c = false := by
  have := isPart_bounds hc
  exact isBlank_of_visible (by omega) (by omega)

/-- A mark does not stand in a text of letters, digits and underscores. -/
theorem not_mem_of_isPart {mark : Char} {text : List Char} (htext : ∀ c ∈ text, isPart c = true)
    (hmark : isPart mark = false) : mark ∉ text := by
  intro hmem
  rw [htext mark hmem] at hmark
  exact absurd hmark (by decide)

theorem Name.isPart_of_mem (name : Name) : ∀ c ∈ name.text, isPart c = true := by
  intro c hc
  rcases List.mem_cons.mp hc with rfl | hc
  · rcases name.first_ok with hletter | hunderscore
    · exact isPart_of_isAlpha hletter
    · rw [hunderscore]
      decide
  · rcases name.rest_ok c hc with halphanum | hunderscore
    · simp [isPart, halphanum]
    · simp [isPart, hunderscore]

theorem Numeral.isPart_of_mem (numeral : Numeral) : ∀ c ∈ numeral.digits, isPart c = true :=
  fun c hc => isPart_of_isDigit (numeral.decimal c hc)

theorem Scalar.isPart_of_mem (type : Scalar) : ∀ c ∈ type.text, isPart c = true := by
  obtain ⟨entry, hentry⟩ := type
  have hspellings : ∀ entry ∈ TypeName.spellings, entry.1.toList.all isPart = true := by
    decide
  exact List.all_eq_true.mp (hspellings entry hentry)

/-! ## Names -/

theorem Name.strip_text (name : Name) : strip name.text = name.text :=
  trim_eq_self fun c hc => isBlank_of_isPart (name.isPart_of_mem c hc)

theorem Name.integer?_text (name : Name) : integer? name.text = none :=
  integer?_of_name name.first_ok fun c hc =>
    isNumeralBlank_of_isBlank (isBlank_of_isPart (name.isPart_of_mem c hc))

/-- A name is not read as a number with a point. -/
theorem Name.not_mem_point (name : Name) : '.' ∉ name.text :=
  not_mem_of_isPart name.isPart_of_mem (by decide)

/-! ## Integers -/

/-- The numeral of an integer has digits, and perhaps a minus sign in front. -/
theorem mem_integerText {value : Int} {c : Char} (hc : c ∈ (integerText value).toList) :
    c = '-' ∨ c.isDigit = true := by
  have hdigits : ∀ d ∈ (Nat.repr value.natAbs).toList, d.isDigit = true := by
    intro d hd
    rw [Nat.toList_repr] at hd
    exact Nat.isDigit_of_mem_toDigits (by decide) (by decide) hd
  unfold integerText at hc
  split at hc
  · rw [String.toList_append, List.mem_append] at hc
    rcases hc with hminus | hdigit
    · exact Or.inl (by simpa using hminus)
    · exact Or.inr (hdigits c hdigit)
  · exact Or.inr (hdigits c hc)

theorem not_mem_integerText {mark : Char} (hminus : mark ≠ '-') (hpart : isPart mark = false)
    (value : Int) : mark ∉ (integerText value).toList := by
  intro hmem
  rcases mem_integerText hmem with rfl | hdigit
  · exact hminus rfl
  · rw [isPart_of_isDigit hdigit] at hpart
    exact absurd hpart (by decide)

/-! ## Values -/

theorem Value.strip_text (value : Value) : strip value.text = value.text := by
  cases value with
  | plain text isPlain => exact isPlain.trimmed
  | quoted body isBody =>
      have hends : (doubleQuote :: (body ++ [doubleQuote])).getLast? = some doubleQuote := by
        rw [← List.cons_append, List.getLast?_concat]
      exact trim_eq_self_of_ends (p := isBlank) (by decide) (by decide) rfl hends

end LineCompiler.Flat
