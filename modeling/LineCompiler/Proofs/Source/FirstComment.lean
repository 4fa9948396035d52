import LineCompiler.Proofs.Source.Tail
import LineCompiler.Proofs.Text.Trim

/-!
# The first comment

The look for a comment carries two flags from character to character.  Here both are read off the
text at a position: a character is escaped behind a backslash that is not itself escaped
(`isEscapedAt`), and it stands in a string if the number of double quotes before it that are not
escaped is odd (`inStringAt`).  A comment starts at two slashes with an even number of such quotes
before them (`startsComment`), and `commentStart` is the first place where one does.

One step of the look takes the flags of a position to those of the next (`codeFrom_step`), and a run
of steps comes to the first comment with all before it kept (`codeFrom_eq_take`).  Whether a comment
starts at a position depends on what stands up to the second slash only (`startsComment_append`).
So there is no comment in what was kept of a line, and it can be said exactly behind which texts a
comment may be put (`stripComment_append_comment_iff`).
-/

namespace LineCompiler.Source

open Text

variable {text front more : List Char} {position cut : Nat} {c : Char}

/-- Whether the character before a position is a backslash that is not itself escaped. -/
def isEscapedAt (text : List Char) : Nat → Bool
  | 0 => false
  | position + 1 => text[position]? = some '\\' && !isEscapedAt text position

/-- The number of double quotes before a position that are not escaped. -/
def quotesBefore (text : List Char) (position : Nat) : Nat :=
  (List.range position).countP fun earlier =>
    text[earlier]? = some doubleQuote && !isEscapedAt text earlier

/-- Whether the look for a comment stands in a string when it comes to a position. -/
def inStringAt (text : List Char) (position : Nat) : Bool :=
  quotesBefore text position % 2 = 1

/-- Whether two slashes stand at a position, with an even number of such quotes before them. -/
def startsComment (text : List Char) (position : Nat) : Bool :=
  text[position]? = some '/' && text[position + 1]? = some '/' && quotesBefore text position % 2 = 0

/-- The first position where a comment starts, or the end of a text without a comment. -/
def commentStart (text : List Char) : Nat :=
  ((List.range text.length).find? (startsComment text)).getD text.length

/-! ## The first comment -/

theorem startsComment_iff :
    startsComment text position = true ↔
      text[position]? = some '/' ∧ text[position + 1]? = some '/' ∧
      quotesBefore text position % 2 = 0 := by
  simp [startsComment, and_assoc]

theorem lt_length_of_startsComment (hstarts : startsComment text position = true) :
    position + 1 < text.length :=
  (List.getElem?_eq_some_iff.mp (startsComment_iff.mp hstarts).2.1).1

theorem commentStart_le_length (text : List Char) : commentStart text ≤ text.length := by
  rw [commentStart]
  cases hfind : (List.range text.length).find? (startsComment text) with
  | none => exact Nat.le_refl _
  | some start => exact Nat.le_of_lt (List.mem_range.mp (List.mem_of_find?_eq_some hfind))

theorem startsComment_commentStart (hlt : commentStart text < text.length) :
    startsComment text (commentStart text) = true := by
  rw [commentStart] at hlt ⊢
  cases hfind : (List.range text.length).find? (startsComment text) with
  | none => exact absurd (hfind ▸ hlt) (Nat.lt_irrefl _)
  | some start => exact List.find?_some hfind

theorem not_startsComment_of_lt (hlt : position < commentStart text) :
    startsComment text position = false := by
  have hlength : position < text.length := Nat.lt_of_lt_of_le hlt (commentStart_le_length text)
  rw [commentStart] at hlt
  cases hfind : (List.range text.length).find? (startsComment text) with
  | none => simpa using List.find?_range_eq_none.mp hfind position hlength
  | some start =>
      rw [hfind, Option.getD_some] at hlt
      simpa using (List.find?_range_eq_some.mp hfind).2.2 position hlt

/-- The first comment is at the one position where a comment or the end is, with no comment
before. -/
theorem commentStart_eq (hcut : startsComment text cut = true ∨ cut = text.length)
    (hbefore : ∀ position < cut, startsComment text position = false) :
    commentStart text = cut := by
  rcases Nat.lt_trichotomy (commentStart text) cut with hlt | heq | hgt
  · -- The end is not before the cut, so a comment is.
    have hle : cut ≤ text.length := by
      rcases hcut with hstarts | rfl
      · exact Nat.le_of_succ_le (Nat.le_of_lt (lt_length_of_startsComment hstarts))
      · exact Nat.le_refl _
    have hstarts := startsComment_commentStart (Nat.lt_of_lt_of_le hlt hle)
    rw [hbefore _ hlt] at hstarts
    cases hstarts
  · exact heq
  · rcases hcut with hstarts | rfl
    · rw [not_startsComment_of_lt hgt] at hstarts
      cases hstarts
    · exact absurd hgt (Nat.not_lt.mpr (commentStart_le_length text))

/-! ## The flags of a position -/

theorem quotesBefore_succ (text : List Char) (position : Nat) :
    quotesBefore text (position + 1) =
      quotesBefore text position +
        if text[position]? = some doubleQuote && !isEscapedAt text position then 1 else 0 := by
  rw [quotesBefore, quotesBefore, List.range_succ, List.countP_append, List.countP_singleton]

theorem inStringAt_succ (hc : text[position]? = some c) :
    inStringAt text (position + 1) =
      if c = doubleQuote && !isEscapedAt text position then !inStringAt text position
      else inStringAt text position := by
  rw [inStringAt, inStringAt, quotesBefore_succ, hc]
  simp only [Option.some.injEq]
  split
  · rw [← decide_not, decide_eq_decide]
    omega
  · rw [Nat.add_zero]

theorem isEscapedAt_succ (hc : text[position]? = some c) :
    isEscapedAt text (position + 1) = (c = '\\' && !isEscapedAt text position) := by
  rw [isEscapedAt, hc]
  simp only [Option.some.injEq]

/-- A slash is no quote, so it is within a string exactly if what follows it is. -/
theorem startsComment_eq (hc : text[position]? = some c) :
    startsComment text position =
      (!inStringAt text (position + 1) && c = '/' && text[position + 1]? = some '/') := by
  rw [startsComment, inStringAt_succ hc, hc]
  by_cases hslash : c = '/'
  · subst hslash
    have heven : decide (quotesBefore text position % 2 = 0) = !inStringAt text position := by
      rw [inStringAt, ← decide_not, decide_eq_decide]
      omega
    rw [heven]
    simp [doubleQuote, Bool.and_comm]
  · simp [hslash]

/-! ## The look for a comment -/

/-- **One step.**  Where no comment starts, the look passes a character and comes to the next
position with the flags of that position. -/
theorem codeFrom_step (hc : text[position]? = some c)
    (hnone : startsComment text position = false) :
    codeFrom (inStringAt text position) (isEscapedAt text position) (text.drop position) =
      c :: codeFrom (inStringAt text (position + 1)) (isEscapedAt text (position + 1))
        (text.drop (position + 1)) := by
  obtain ⟨hlt, hget⟩ := List.getElem?_eq_some_iff.mp hc
  rw [List.drop_eq_getElem_cons hlt, hget, codeFrom, isEscapedAt_succ hc]
  split
  · rename_i hbackslash
    rw [Bool.and_eq_true, decide_eq_true_eq] at hbackslash
    rw [inStringAt_succ hc, hbackslash.1, hbackslash.2]
    simp [doubleQuote]
  · rename_i hother
    dsimp only
    rw [← inStringAt_succ hc, List.head?_drop, ← startsComment_eq hc, hnone,
      eq_false_of_ne_true hother]
    rfl

/-- A run of steps over a part without a comment keeps that part. -/
theorem codeFrom_eq_take_append (hlength : position ≤ text.length)
    (hnone : ∀ earlier < position, startsComment text earlier = false) :
    codeFrom false false text =
      text.take position ++
        codeFrom (inStringAt text position) (isEscapedAt text position) (text.drop position) := by
  induction position with
  | zero => rfl
  | succ position ih =>
      have hc : text[position]? = some text[position] := List.getElem?_eq_getElem hlength
      rw [ih (Nat.le_of_lt hlength) fun earlier hearlier =>
        hnone earlier (Nat.lt_succ_of_lt hearlier),
        codeFrom_step hc (hnone position (Nat.lt_succ_self position)),
        List.take_succ_eq_append_getElem hlength, List.append_assoc, List.singleton_append]

private theorem codeFrom_of_startsComment (hstarts : startsComment text position = true) :
    codeFrom (inStringAt text position) (isEscapedAt text position) (text.drop position) = [] := by
  obtain ⟨hslash, hnext, heven⟩ := startsComment_iff.mp hstarts
  obtain ⟨hlt, hget⟩ := List.getElem?_eq_some_iff.mp hslash
  have hout : inStringAt text position = false := by
    rw [inStringAt, heven]
    rfl
  rw [List.drop_eq_getElem_cons hlt, hget, hout, codeFrom, List.head?_drop, hnext]
  simp [doubleQuote]

/-- **The code of a line is what stands before its first comment.** -/
theorem codeFrom_eq_take (text : List Char) :
    codeFrom false false text = text.take (commentStart text) := by
  rw [codeFrom_eq_take_append (commentStart_le_length text) fun _ => not_startsComment_of_lt]
  rcases Nat.lt_or_eq_of_le (commentStart_le_length text) with hlt | hend
  · rw [codeFrom_of_startsComment (startsComment_commentStart hlt), List.append_nil]
  · rw [hend, List.drop_length, codeFrom, List.append_nil]

/-! ## A text and what is put behind it -/

/-- The flags of a position depend on what stands before it only. -/
theorem isEscapedAt_append (hposition : position ≤ front.length) :
    isEscapedAt (front ++ more) position = isEscapedAt front position := by
  induction position with
  | zero => rfl
  | succ position ih =>
      rw [isEscapedAt, isEscapedAt, List.getElem?_append_left hposition,
        ih (Nat.le_of_lt hposition)]

theorem quotesBefore_append (hposition : position ≤ front.length) :
    quotesBefore (front ++ more) position = quotesBefore front position := by
  refine List.countP_congr fun earlier hearlier => ?_
  have hlt : earlier < front.length := Nat.lt_of_lt_of_le (List.mem_range.mp hearlier) hposition
  rw [List.getElem?_append_left hlt, isEscapedAt_append (Nat.le_of_lt hlt)]

theorem startsComment_append (hposition : position + 1 < front.length) :
    startsComment (front ++ more) position = startsComment front position := by
  have hlt : position < front.length := Nat.lt_of_succ_lt hposition
  rw [startsComment, startsComment, List.getElem?_append_left hlt,
    List.getElem?_append_left hposition, quotesBefore_append (Nat.le_of_lt hlt)]

/-- A comment that starts in a text stays the first one. -/
theorem commentStart_append_of_lt (hfound : commentStart text < text.length) (more : List Char) :
    commentStart (text ++ more) = commentStart text := by
  have hstarts := startsComment_commentStart hfound
  have hlength := lt_length_of_startsComment hstarts
  refine commentStart_eq (.inl ?_) fun position hposition => ?_
  · rw [startsComment_append hlength, hstarts]
  · rw [startsComment_append (by omega), not_startsComment_of_lt hposition]

/-! ## Stripping -/

theorem stripComment_eq (text : List Char) :
    stripComment text = trimEnd isLineTail (text.take (commentStart text)) ++ ['\n'] := by
  rw [stripComment, codeFrom_eq_take]

/-- No comment starts in what was kept of a line. -/
theorem commentStart_append_feed (hfront : front <+: text.take (commentStart text)) :
    commentStart (front ++ ['\n']) = (front ++ ['\n']).length := by
  refine commentStart_eq (.inr rfl) fun position _ => ?_
  by_cases hposition : position + 1 < front.length
  · -- Both slashes would stand in the line, before its first comment.
    obtain ⟨rest, hrest⟩ := hfront.trans (List.take_prefix ..)
    have hle : front.length ≤ commentStart text :=
      Nat.le_trans hfront.length_le (List.length_take_le ..)
    have hbefore : startsComment (front ++ rest) position = false := by
      rw [hrest]
      exact not_startsComment_of_lt (by omega)
    rwa [startsComment_append hposition] at hbefore ⊢
  · -- The second slash would be the line feed.
    have hsecond : (front ++ ['\n'])[position + 1]? ≠ some '/' := by
      rw [List.getElem?_append_right (Nat.not_lt.mp hposition)]
      cases position + 1 - front.length <;> simp
    simp [startsComment, hsecond]

theorem stripComment_stripComment (text : List Char) :
    stripComment (stripComment text) = stripComment text := by
  obtain ⟨tail, htail, _⟩ := exists_trimEnd_append isLineTail (text.take (commentStart text))
  have hkept : trimEnd isLineTail (text.take (commentStart text)) <+:
      text.take (commentStart text) :=
    ⟨tail, htail.symm⟩
  rw [stripComment_eq text, stripComment_eq, commentStart_append_feed hkept, List.take_length,
    trimEnd_append_singleton_of (by decide), trimEnd_trimEnd]

/-! ## A comment behind a text -/

/-- Slashes put behind a text make a comment of its last character if this is a slash outside
strings. -/
theorem startsComment_append_slash (hposition : position + 1 = text.length) :
    startsComment (text ++ '/' :: more) position = true ↔
      quotesBefore text text.length % 2 = 0 ∧ text.getLast? = some '/' := by
  have hlast : text.getLast? = text[position]? := by
    rw [List.getLast?_eq_getElem?, ← hposition, Nat.add_sub_cancel]
  have hnext : (text ++ '/' :: more)[position + 1]? = some '/' := by simp [hposition]
  rw [startsComment_iff, hnext, List.getElem?_append_left (by omega),
    quotesBefore_append (by omega), hlast, ← hposition, quotesBefore_succ]
  constructor
  · rintro ⟨hslash, -, heven⟩
    exact ⟨by simp [hslash, heven, doubleQuote], hslash⟩
  · rintro ⟨heven, hslash⟩
    exact ⟨hslash, rfl, by simpa [hslash, doubleQuote] using heven⟩

section Uncommented

variable (hnone : commentStart text = text.length)

include hnone

private theorem commentStart_append_comment (heven : quotesBefore text text.length % 2 = 0)
    (hlast : text.getLast? ≠ some '/') (comment : List Char) :
    commentStart (text ++ '/' :: '/' :: comment) = text.length := by
  refine commentStart_eq (.inl ?_) fun position hposition => ?_
  · simp [startsComment_iff, quotesBefore_append, heven]
  · by_cases hinner : position + 1 < text.length
    · rw [startsComment_append hinner, not_startsComment_of_lt (hnone ▸ hposition)]
    · refine eq_false_of_ne_true fun hstarts => hlast ?_
      exact ((startsComment_append_slash (by omega)).mp hstarts).2

/-- A last slash and the slashes of a comment make a comment that starts one character earlier. -/
theorem commentStart_append_comment_of_slash (heven : quotesBefore text text.length % 2 = 0)
    (hlast : text.getLast? = some '/') (comment : List Char) :
    commentStart (text ++ '/' :: '/' :: comment) = text.length - 1 := by
  have hpos : 0 < text.length := by
    cases text with
    | nil => cases hlast
    | cons c rest => exact Nat.succ_pos _
  refine commentStart_eq (.inl ?_) fun position hposition => ?_
  · exact (startsComment_append_slash (by omega)).mpr ⟨heven, hlast⟩
  · rw [startsComment_append (by omega), not_startsComment_of_lt (by omega)]

/-- Slashes in a string start no comment. -/
theorem commentStart_append_slashes_of_string (hodd : quotesBefore text text.length % 2 ≠ 0) :
    commentStart (text ++ ['/', '/']) = (text ++ ['/', '/']).length := by
  refine commentStart_eq (.inr rfl) fun position _ => eq_false_of_ne_true fun hstarts => ?_
  have hlength := lt_length_of_startsComment hstarts
  rw [List.length_append, List.length_cons, List.length_singleton] at hlength
  rcases Nat.lt_trichotomy (position + 1) text.length with hinner | hedge | houter
  · rw [startsComment_append hinner, not_startsComment_of_lt (by omega)] at hstarts
    cases hstarts
  · exact hodd ((startsComment_append_slash hedge).mp hstarts).1
  · obtain rfl : position = text.length := by omega
    rw [startsComment_iff, quotesBefore_append (Nat.le_refl _)] at hstarts
    exact hodd hstarts.2.2

theorem stripComment_of_uncommented : stripComment text = trimEnd isLineTail text ++ ['\n'] := by
  rw [stripComment_eq, hnone, List.take_length]

theorem stripComment_append_comment (heven : quotesBefore text text.length % 2 = 0)
    (hlast : text.getLast? ≠ some '/') (comment : List Char) :
    stripComment (text ++ '/' :: '/' :: comment) = stripComment text := by
  rw [stripComment_of_uncommented hnone, stripComment_eq,
    commentStart_append_comment hnone heven hlast, List.take_left]

/-- A last slash outside of strings is lost with the comment. -/
theorem stripComment_append_comment_ne_of_slash (heven : quotesBefore text text.length % 2 = 0)
    (hlast : text.getLast? = some '/') (comment : List Char) :
    stripComment (text ++ '/' :: '/' :: comment) ≠ stripComment text := by
  intro hsame
  obtain ⟨front, hfront⟩ := List.getLast?_eq_some_iff.mp hlast
  rw [stripComment_of_uncommented hnone, stripComment_eq,
    commentStart_append_comment_of_slash hnone heven hlast,
    List.take_append_of_le_length (Nat.sub_le ..), ← List.dropLast_eq_take, hfront,
    List.dropLast_concat, trimEnd_append_singleton_of_not (by decide)] at hsame
  have hle := length_trimEnd_le isLineTail front
  rw [List.append_cancel_right hsame, List.length_append] at hle
  exact Nat.not_succ_le_self _ hle

/-- In a string the slashes are kept. -/
theorem stripComment_append_slashes_ne_of_string (hodd : quotesBefore text text.length % 2 ≠ 0) :
    stripComment (text ++ ['/', '/']) ≠ stripComment text := by
  intro hsame
  rw [stripComment_of_uncommented hnone,
    stripComment_of_uncommented (commentStart_append_slashes_of_string hnone hodd),
    trimEnd_eq_self (by simp [isLineTail])] at hsame
  have hle := length_trimEnd_le isLineTail text
  rw [← List.append_cancel_right hsame, List.length_append] at hle
  exact absurd hle (Nat.not_le.mpr (Nat.lt_add_of_pos_right Nat.two_pos))

end Uncommented

/-- **A comment put behind a text** is cut off, whatever it says, exactly if the text has a comment
already or ends outside of strings and without a slash. -/
theorem stripComment_append_comment_iff (text : List Char) :
    (∀ comment, stripComment (text ++ '/' :: '/' :: comment) = stripComment text) ↔
      commentStart text < text.length ∨
        (quotesBefore text text.length % 2 = 0 ∧ text.getLast? ≠ some '/') := by
  rcases Nat.lt_or_eq_of_le (commentStart_le_length text) with hfound | hnone
  · refine iff_of_true (fun comment => ?_) (.inl hfound)
    rw [stripComment_eq, stripComment_eq, commentStart_append_of_lt hfound,
      List.take_append_of_le_length (Nat.le_of_lt hfound)]
  constructor
  · intro hcut
    have heven : quotesBefore text text.length % 2 = 0 := Decidable.not_not.mp fun hodd =>
      stripComment_append_slashes_ne_of_string hnone hodd (hcut [])
    exact .inr ⟨heven, fun hlast =>
      stripComment_append_comment_ne_of_slash hnone heven hlast [] (hcut [])⟩
  · rintro (hfound | ⟨heven, hlast⟩) comment
    · exact absurd hnone (Nat.ne_of_lt hfound)
    · exact stripComment_append_comment hnone heven hlast comment

/-! ## The whole line -/

theorem isLineTail_iff : isLineTail c = true ↔ c ∈ [' ', '\t', '\r', '\n'] := by
  simp [isLineTail, or_assoc]

/-- **A line is cut at its first comment.**  What stands before the comment is kept, without the
blanks and line ends at its end and with one line feed.  So stripping twice is stripping once, a
line feed at the end of a line has no effect, and a comment may be put behind a text that ends
outside of strings and without a slash. -/
theorem stripComment_at_first_comment (text : List Char) :
    (∃ kept tail : List Char, text.take (commentStart text) = kept ++ tail ∧
      (∀ c ∈ tail, c ∈ [' ', '\t', '\r', '\n']) ∧
      (∀ c, kept.getLast? = some c → c ∉ [' ', '\t', '\r', '\n']) ∧
      stripComment text = kept ++ ['\n']) ∧
    stripComment (stripComment text) = stripComment text ∧
    stripComment (text ++ ['\n']) = stripComment text ∧
    ((∀ comment, stripComment (text ++ '/' :: '/' :: comment) = stripComment text) ↔
      commentStart text < text.length ∨
        (quotesBefore text text.length % 2 = 0 ∧ text.getLast? ≠ some '/')) := by
  refine ⟨?_, stripComment_stripComment text, stripComment_append_feed text,
    stripComment_append_comment_iff text⟩
  obtain ⟨tail, hsplit, htail⟩ := exists_trimEnd_append isLineTail (text.take (commentStart text))
  refine ⟨_, tail, hsplit, fun c hc => isLineTail_iff.mp (htail c hc), fun c hlast hc => ?_,
    stripComment_eq text⟩
  have hkept := of_getLast?_trimEnd hlast
  rw [isLineTail_iff.mpr hc] at hkept
  cases hkept

/-- A text with slashes in a string, an escaped quote in it and an escaped backslash before it. -/
theorem stripComment_at_first_comment_string :
    let text := "\\\\\"a//\\\"b\" \t".toList
    commentStart text = 12 ∧ (quotesBefore text 12 % 2 = 0 ∧ text.getLast? ≠ some '/') ∧
      stripComment text = "\\\\\"a//\\\"b\"\n".toList ∧
      stripComment (text ++ "// \"c".toList) = stripComment text := by
  intro text
  have houtside : quotesBefore text text.length % 2 = 0 ∧ text.getLast? ≠ some '/' := by
    decide +kernel
  exact ⟨by decide +kernel, houtside, by decide +kernel,
    (stripComment_at_first_comment text).2.2.2.mpr (.inr houtside) " \"c".toList⟩

end LineCompiler.Source
