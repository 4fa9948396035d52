import LineCompiler.Text.Utf8

/-!
# Texts are read back from their bytes

Each character has one to four bytes.  The first byte says how many there are, and the bytes behind
it carry six bits each, so that the number of the character can be put together again
(`decode_encodeChar`).  What the reader of bytes excludes never comes up: longer forms than needed,
numbers beyond the last character, and the surrogates, which are no characters.
-/

namespace LineCompiler.Text

/-! ## Bytes as numbers -/

theorem toNat_ofNat {value : Nat} (hvalue : value < 0x100) : (UInt8.ofNat value).toNat = value := by
  rw [UInt8.toNat_ofNat']
  exact Nat.mod_eq_of_lt hvalue

theorem toNat_tailByte (bits : Nat) : (tailByte bits).toNat = 0x80 + bits % 0x40 :=
  toNat_ofNat (by omega)

theorem isTail_tailByte (bits : Nat) : isTail (tailByte bits) = true := by
  simp only [isTail, Bool.and_eq_true, decide_eq_true_eq, UInt8.le_iff_toNat_le, toNat_tailByte,
    UInt8.reduceToNat]
  omega

theorem tailBits_tailByte (bits : Nat) : tailBits (tailByte bits) = bits % 0x40 := by
  rw [tailBits, toNat_tailByte]
  omega

/-! ## Characters of one to four bytes -/

section Decode

variable {first second third fourth : UInt8}

theorem opensTwo_iff :
    (0xC2 ≤ first && first ≤ 0xDF) = true ↔ 0xC2 ≤ first.toNat ∧ first.toNat ≤ 0xDF := by
  simp [UInt8.le_iff_toNat_le]

theorem opensThree_iff :
    (0xE0 ≤ first && first ≤ 0xEF) = true ↔ 0xE0 ≤ first.toNat ∧ first.toNat ≤ 0xEF := by
  simp [UInt8.le_iff_toNat_le]

private theorem opensFour_iff :
    (0xF0 ≤ first && first ≤ 0xF4) = true ↔ 0xF0 ≤ first.toNat ∧ first.toNat ≤ 0xF4 := by
  simp [UInt8.le_iff_toNat_le]

theorem not_ascii (hfirst : 0x80 ≤ first.toNat) : ¬ first < 0x80 :=
  fun hascii => absurd (UInt8.lt_iff_toNat_lt.mp hascii) (Nat.not_lt.mpr hfirst)

variable (rest : List UInt8)

private theorem decode_one (hfirst : first.toNat < 0x80) :
    decode (first :: rest) = (decode rest).cons first.toNat := by
  have hone : first < 0x80 := UInt8.lt_iff_toNat_lt.mpr hfirst
  rw [decode.eq_def]
  simp only [if_pos hone]

private theorem decode_two (hlow : 0xC2 ≤ first.toNat) (hhigh : first.toNat ≤ 0xDF)
    (hsecond : isTail second = true) :
    decode (first :: second :: rest) =
      (decode rest).cons (first.toNat % 0x20 * 0x40 + tailBits second) := by
  rw [decode.eq_def]
  simp only [if_neg (@not_ascii first (by omega)), if_pos (opensTwo_iff.mpr ⟨hlow, hhigh⟩),
    hsecond, if_true]

private theorem decode_three (hlow : 0xE0 ≤ first.toNat) (hhigh : first.toNat ≤ 0xEF)
    (hsecond : mayFollow first second = true) (hsurrogate : opensSurrogate first second = false)
    (hthird : isTail third = true) :
    decode (first :: second :: third :: rest) =
      (decode rest).cons
        ((first.toNat % 0x10 * 0x40 + tailBits second) * 0x40 + tailBits third) := by
  have htwo : ¬ (0xC2 ≤ first && first ≤ 0xDF) = true := by
    rw [opensTwo_iff]
    omega
  rw [decode.eq_def]
  simp only [if_neg (@not_ascii first (by omega)), if_neg htwo,
    if_pos (opensThree_iff.mpr ⟨hlow, hhigh⟩), hsecond, hsurrogate, hthird, Bool.not_true,
    Bool.not_false, Bool.and_self, Bool.false_eq_true, if_true, if_false]

private theorem decode_four (hlow : 0xF0 ≤ first.toNat) (hhigh : first.toNat ≤ 0xF4)
    (hsecond : mayFollow first second = true) (hthird : isTail third = true)
    (hfourth : isTail fourth = true) :
    decode (first :: second :: third :: fourth :: rest) =
      (decode rest).cons
        (((first.toNat % 0x08 * 0x40 + tailBits second) * 0x40 + tailBits third) * 0x40 +
          tailBits fourth) := by
  have htwo : ¬ (0xC2 ≤ first && first ≤ 0xDF) = true := by
    rw [opensTwo_iff]
    omega
  have hthree : ¬ (0xE0 ≤ first && first ≤ 0xEF) = true := by
    rw [opensThree_iff]
    omega
  rw [decode.eq_def]
  simp only [if_neg (@not_ascii first (by omega)), if_neg htwo, if_neg hthree,
    if_pos (opensFour_iff.mpr ⟨hlow, hhigh⟩), hsecond, hthird, hfourth, Bool.not_true,
    Bool.false_eq_true, if_true, if_false]

end Decode

theorem mayFollow_tailByte {first : UInt8} {bits : Nat}
    (hlong : first.toNat = 0xE0 → 0x20 ≤ bits % 0x40)
    (hlonger : first.toNat = 0xF0 → 0x10 ≤ bits % 0x40)
    (hbeyond : first.toNat = 0xF4 → bits % 0x40 < 0x10) :
    mayFollow first (tailByte bits) = true := by
  simp only [mayFollow, isTail_tailByte, Bool.true_and, Bool.and_eq_true, Bool.or_eq_true,
    decide_eq_true_eq, ne_eq, ← UInt8.toNat_inj, UInt8.le_iff_toNat_le, toNat_tailByte,
    UInt8.reduceToNat]
  omega

/-- **A character is read back from its bytes.** -/
theorem decode_encodeChar (c : Char) (rest : List UInt8) :
    decode (encodeChar c ++ rest) = (decode rest).cons c.toNat := by
  have hvalid : c.toNat < 0xD800 ∨ 0xDFFF < c.toNat ∧ c.toNat < 0x110000 := c.valid
  unfold encodeChar
  generalize c.toNat = code at hvalid
  by_cases hone : code < 0x80
  · have hfirst : (UInt8.ofNat code).toNat = code := toNat_ofNat (by omega)
    simp only [if_pos hone, List.singleton_append]
    rw [decode_one rest (by omega), hfirst]
  · by_cases htwo : code < 0x800
    · have hfirst : (UInt8.ofNat (0xC0 + code / 0x40)).toNat = 0xC0 + code / 0x40 :=
        toNat_ofNat (by omega)
      simp only [if_neg hone, if_pos htwo, List.cons_append, List.nil_append]
      rw [decode_two rest (by omega) (by omega) (isTail_tailByte _), hfirst, tailBits_tailByte]
      congr 1
      omega
    · by_cases hthree : code < 0x10000
      · have hfirst : (UInt8.ofNat (0xE0 + code / 0x1000)).toNat = 0xE0 + code / 0x1000 :=
          toNat_ofNat (by omega)
        have hfollow : mayFollow (UInt8.ofNat (0xE0 + code / 0x1000))
            (tailByte (code / 0x40)) = true :=
          mayFollow_tailByte (by omega) (by omega) (by omega)
        have hsurrogate : opensSurrogate (UInt8.ofNat (0xE0 + code / 0x1000))
            (tailByte (code / 0x40)) = false := by
          simp only [opensSurrogate, Bool.and_eq_false_iff, decide_eq_false_iff_not,
            ← UInt8.toNat_inj, UInt8.le_iff_toNat_le, toNat_tailByte, hfirst, UInt8.reduceToNat]
          omega
        simp only [if_neg hone, if_neg htwo, if_pos hthree, List.cons_append, List.nil_append]
        rw [decode_three rest (by omega) (by omega) hfollow hsurrogate (isTail_tailByte _), hfirst,
          tailBits_tailByte, tailBits_tailByte]
        congr 1
        omega
      · have hfirst : (UInt8.ofNat (0xF0 + code / 0x40000)).toNat = 0xF0 + code / 0x40000 :=
          toNat_ofNat (by omega)
        have hfollow : mayFollow (UInt8.ofNat (0xF0 + code / 0x40000))
            (tailByte (code / 0x1000)) = true :=
          mayFollow_tailByte (by omega) (by omega) (by omega)
        simp only [if_neg hone, if_neg htwo, if_neg hthree, List.cons_append, List.nil_append]
        rw [decode_four rest (by omega) (by omega) hfollow (isTail_tailByte _) (isTail_tailByte _),
          hfirst, tailBits_tailByte, tailBits_tailByte, tailBits_tailByte]
        congr 1
        omega

/-- **A text is read back from its bytes.** -/
theorem decode_encode (text : List Char) : decode (encode text) = ⟨text, .whole⟩ := by
  induction text with
  | nil => rfl
  | cons c rest ih =>
      rw [encode, List.flatMap_cons, decode_encodeChar, ← encode, ih, Decoded.cons,
        Char.ofNat_toNat]

end LineCompiler.Text
