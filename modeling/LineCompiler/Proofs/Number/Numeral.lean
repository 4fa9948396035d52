import Mathlib.Algebra.Group.Nat.Defs
import LineCompiler.Number.Integer
import LineCompiler.Proofs.Text.Trim

/-!
# Numerals in ASCII digits

Integers are read back from their decimal numerals, as long as these are not too long, and a text
that starts with a letter or an underscore is no numeral.  Among the digits of all scripts only the
ASCII ones lie below `U+0660`, so that in a text of ASCII characters the two notions of a digit
agree.
-/

namespace LineCompiler.Number

open Text

/-! ## Digits -/

theorem isDigit_bounds {c : Char} (hdigit : c.isDigit = true) : 48 ≤ c.toNat ∧ c.toNat ≤ 57 := by
  simp only [Char.isDigit, Bool.and_eq_true, decide_eq_true_eq, UInt32.le_iff_toNat_le] at hdigit
  exact hdigit

theorem digitValue?_of_isDigit {c : Char} (hdigit : c.isDigit = true) :
    digitValue? c = some (c.toNat - 48) := by
  obtain ⟨hlow, hhigh⟩ := isDigit_bounds hdigit
  have hzeros : digitZeros = 0x30 :: digitZeros.tail := rfl
  rw [digitValue?, hzeros, List.find?_cons_of_pos]
  · rfl
  · simp only [Bool.and_eq_true, decide_eq_true_eq]
    omega

private theorem le_of_mem_digitZeros : ∀ start ∈ digitZeros, start = 0x30 ∨ 0x660 ≤ start := by
  decide

theorem digitValue?_of_not_isDigit {c : Char} (hascii : c.toNat < 0x660)
    (hdigit : c.isDigit = false) : digitValue? c = none := by
  rw [digitValue?, Option.map_eq_none_iff, List.find?_eq_none]
  intro start hstart hrange
  simp only [Bool.and_eq_true, decide_eq_true_eq] at hrange
  rcases le_of_mem_digitZeros start hstart with rfl | hlarge
  · have : c.isDigit = true := by
      simp only [Char.isDigit, Bool.and_eq_true, decide_eq_true_eq, UInt32.le_iff_toNat_le]
      exact ⟨hrange.1, Nat.le_of_lt_succ hrange.2⟩
    rw [this] at hdigit
    exact absurd hdigit (by decide)
  · omega

theorem isAlpha_bounds {c : Char} (hletter : c.isAlpha = true) : 65 ≤ c.toNat ∧ c.toNat ≤ 122 := by
  change (decide (c.val ≥ 'A'.val ∧ c.val ≤ 'Z'.val) ||
    (decide (c.val ≥ 'a'.val) && decide (c.val ≤ 'z'.val))) = true at hletter
  simp only [Bool.or_eq_true, Bool.and_eq_true, decide_eq_true_eq, ge_iff_le,
    UInt32.le_iff_toNat_le] at hletter
  have hvalue : c.val.toNat = c.toNat := rfl
  rcases hletter with ⟨hlow, hhigh⟩ | ⟨hlow, hhigh⟩
  · have : 65 ≤ c.val.toNat := hlow
    have : c.val.toNat ≤ 90 := hhigh
    omega
  · have : 97 ≤ c.val.toNat := hlow
    have : c.val.toNat ≤ 122 := hhigh
    omega

theorem digitValue?_of_isAlpha {c : Char} (hletter : c.isAlpha = true) : digitValue? c = none := by
  obtain ⟨hlow, hhigh⟩ := isAlpha_bounds hletter
  apply digitValue?_of_not_isDigit (by omega)
  rw [← Bool.not_eq_true]
  intro hdigit
  have := isDigit_bounds hdigit
  omega

/-- A digit is no blank around a numeral. -/
theorem isNumeralBlank_of_isDigit {c : Char} (hdigit : c.isDigit = true) :
    isNumeralBlank c = false := by
  obtain ⟨hlow, hhigh⟩ := isDigit_bounds hdigit
  exact isNumeralBlank_of_isBlank (isBlank_of_visible (by omega) (by omega))

/-! ## Digits and signs -/

theorem digitsOf?_of_isDigit {text : List Char} (hdigits : ∀ c ∈ text, c.isDigit = true) :
    digitsOf? true text = some (text.map fun c => c.toNat - 48) := by
  induction text with
  | nil => rfl
  | cons c rest ih =>
      have hc := hdigits c (List.mem_cons_self ..)
      have hunderscore : c ≠ '_' := by
        rintro rfl
        exact absurd hc (by decide)
      rw [digitsOf?, if_neg hunderscore, digitValue?_of_isDigit hc,
        ih fun other hother => hdigits other (List.mem_cons_of_mem _ hother)]
      rfl

theorem digitsOf?_of_isDigit_of_ne_nil {text : List Char} (hne : text ≠ [])
    (hdigits : ∀ c ∈ text, c.isDigit = true) :
    digitsOf? false text = some (text.map fun c => c.toNat - 48) := by
  rw [← digitsOf?_of_isDigit hdigits]
  cases text with
  | nil => exact absurd rfl hne
  | cons c rest =>
      have hunderscore : c ≠ '_' := by
        rintro rfl
        exact absurd (hdigits '_' (List.mem_cons_self ..)) (by decide)
      rw [digitsOf?, digitsOf?, if_neg hunderscore, if_neg hunderscore]

theorem splitSign_of_isDigit {text : List Char} (hdigits : ∀ c ∈ text, c.isDigit = true) :
    splitSign text = (false, text) := by
  unfold splitSign
  split
  · exact absurd (hdigits '-' (List.mem_cons_self ..)) (by decide)
  · exact absurd (hdigits '+' (List.mem_cons_self ..)) (by decide)
  · rfl

theorem ofDigits_map (text : List Char) :
    ofDigits (text.map fun c => c.toNat - 48) = Nat.ofDigitChars 10 text 0 := by
  rw [ofDigits, List.foldl_map, Nat.ofDigitChars_eq_foldl]
  rfl

/-! ## Numerals -/

/-- A text of digits is a numeral. -/
theorem integer?_of_isDigit {text : List Char} (hne : text ≠ [])
    (hdigits : ∀ c ∈ text, c.isDigit = true) (hlength : text.length ≤ maxDigits) :
    integer? text = some (Nat.ofDigitChars 10 text 0 : Int) := by
  have htrim : trim isNumeralBlank text = text :=
    trim_eq_self fun c hc => isNumeralBlank_of_isDigit (hdigits c hc)
  simp only [integer?, htrim, splitSign_of_isDigit hdigits,
    digitsOf?_of_isDigit_of_ne_nil hne hdigits, List.length_map, ofDigits_map,
    if_neg (Nat.not_lt.mpr hlength), Bool.false_eq_true, if_false]

/-- A text of digits behind a minus sign is a numeral. -/
theorem integer?_of_minus {text : List Char} (hne : text ≠ [])
    (hdigits : ∀ c ∈ text, c.isDigit = true) (hlength : text.length ≤ maxDigits) :
    integer? ('-' :: text) = some (-(Nat.ofDigitChars 10 text 0 : Int)) := by
  have htrim : trim isNumeralBlank ('-' :: text) = '-' :: text := by
    apply trim_eq_self
    intro c hc
    rcases List.mem_cons.mp hc with rfl | hc
    · decide
    · exact isNumeralBlank_of_isDigit (hdigits c hc)
  simp only [integer?, htrim, splitSign, digitsOf?_of_isDigit_of_ne_nil hne hdigits,
    List.length_map, ofDigits_map, if_neg (Nat.not_lt.mpr hlength), if_true]

private theorem length_toDigits_le_maxDigits {value : Nat} (hvalue : value < 10 ^ maxDigits) :
    (Nat.toDigits 10 value).length ≤ maxDigits :=
  (Nat.length_toDigits_le_iff (by decide) (by decide)).mpr hvalue

/-- **Integers are read back from their numerals.** -/
theorem integer?_integerText {value : Int} (hvalue : value.natAbs < 10 ^ maxDigits) :
    integer? (integerText value).toList = some value := by
  have hne : Nat.toDigits 10 value.natAbs ≠ [] := Nat.toDigits_ne_nil
  have hdigits : ∀ c ∈ Nat.toDigits 10 value.natAbs, c.isDigit = true := fun c hc =>
    Nat.isDigit_of_mem_toDigits (by decide) (by decide) hc
  have hlength := length_toDigits_le_maxDigits hvalue
  by_cases hnegative : value < 0
  · have htext : (integerText value).toList = '-' :: Nat.toDigits 10 value.natAbs := by
      simp [integerText, hnegative, Nat.toList_repr]
    rw [htext, integer?_of_minus hne hdigits hlength, Nat.ofDigitChars_ten_toDigits,
      Option.some.injEq]
    omega
  · have htext : (integerText value).toList = Nat.toDigits 10 value.natAbs := by
      simp [integerText, hnegative, Nat.toList_repr]
    rw [htext, integer?_of_isDigit hne hdigits hlength, Nat.ofDigitChars_ten_toDigits,
      Option.some.injEq]
    omega

/-- A text that starts like a name is no numeral. -/
theorem integer?_of_name {first : Char} {rest : List Char}
    (hfirst : first.isAlpha = true ∨ first = '_')
    (hblank : ∀ c ∈ first :: rest, isNumeralBlank c = false) :
    integer? (first :: rest) = none := by
  have hsign : splitSign (first :: rest) = (false, first :: rest) := by
    unfold splitSign
    split
    · rename_i heq
      injection heq with hminus
      rw [hminus] at hfirst
      exact absurd hfirst (by decide)
    · rename_i heq
      injection heq with hplus
      rw [hplus] at hfirst
      exact absurd hfirst (by decide)
    · rfl
  have hdigits : digitsOf? false (first :: rest) = none := by
    rw [digitsOf?]
    rcases hfirst with hletter | rfl
    · have hunderscore : first ≠ '_' := by
        rintro rfl
        exact absurd hletter (by decide)
      rw [if_neg hunderscore, digitValue?_of_isAlpha hletter]
    · rfl
  simp only [integer?, trim_eq_self hblank, hsign, hdigits]

end LineCompiler.Number
