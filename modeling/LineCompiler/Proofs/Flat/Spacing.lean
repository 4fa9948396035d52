import LineCompiler.Proofs.Flat.Texts
import LineCompiler.Proofs.Token.Declaration

/-!
# Spaces between the elements of a line

A line of the flat language is a row of elements, each with as many spaces in front of it as its
canonical text has there.  Gaps put more spaces in front of some of them.

Most readers pass over spaces.  An element is *tight* if its reader does not pass over more spaces
in front of it:

* the colon behind a size, since a size ends where a bracket has a colon right behind it;
* the parenthesis behind a condition, since the right operand counts only if the last character in
  the parentheses belongs to it;
* the brace on the last line of a conditional, since only the first character of a line needs no
  semicolon;
* the name behind a star, since the star is taken from the argument after its spaces are.
-/

namespace LineCompiler.Flat

open Text Number

/-! ## Blanks -/

/-- Some spaces. -/
def blanks (count : Nat) : List Char :=
  List.replicate count ' '

@[simp] theorem blanks_zero : blanks 0 = [] := rfl

@[simp] theorem blanks_eq_nil_iff {count : Nat} : blanks count = [] ↔ count = 0 :=
  List.replicate_eq_nil_iff ..

theorem blanks_succ (count : Nat) : blanks (count + 1) = ' ' :: blanks count := rfl

theorem blanks_append_cons (count : Nat) (rest : List Char) :
    blanks (1 + count) ++ rest = ' ' :: (blanks count ++ rest) := by
  rw [Nat.add_comm, blanks_succ, List.cons_append]

theorem eq_of_mem_blanks {count : Nat} {c : Char} (hc : c ∈ blanks count) : c = ' ' :=
  List.eq_of_mem_replicate hc

/-- A text with spaces on both sides. -/
def padded (front : Nat) (text : List Char) (back : Nat) : List Char :=
  blanks front ++ (text ++ blanks back)

theorem mem_padded {front back : Nat} {text : List Char} {c : Char}
    (hc : c ∈ padded front text back) :
    c ∈ text ∨ c = ' ' := by
  rcases List.mem_append.mp hc with hfront | hc
  · exact Or.inr (eq_of_mem_blanks hfront)
  · exact (List.mem_append.mp hc).imp_right eq_of_mem_blanks

theorem not_mem_padded {front back : Nat} {text : List Char} {mark : Char} (htext : mark ∉ text)
    (hspace : mark ≠ ' ') : mark ∉ padded front text back := by
  intro hmem
  rcases mem_padded hmem with hmem | heq
  · exact htext hmem
  · exact hspace heq

theorem trim_padded {p : Char → Bool} (hspace : p ' ' = true) (front : Nat) (text : List Char)
    (back : Nat) :
    trim p (padded front text back) = trim p text := by
  have hback : ∀ text : List Char, trim p (text ++ blanks back) = trim p text := by
    intro text
    induction back generalizing text with
    | zero => rw [blanks_zero, List.append_nil]
    | succ back ih => rw [blanks_succ, List.append_cons, ih, trim_append_singleton_of hspace]
  induction front with
  | zero => exact hback text
  | succ front ih => exact (trim_cons_of hspace).trans ih

theorem strip_padded (front : Nat) (text : List Char) (back : Nat) :
    strip (padded front text back) = strip text :=
  trim_padded (by decide) ..

theorem integer?_padded (front : Nat) (text : List Char) (back : Nat) :
    integer? (padded front text back) = integer? text := by
  simp only [integer?, trim_padded (by decide : isNumeralBlank ' ' = true)]

theorem packed_padded {text : List Char} (htext : ' ' ∉ text) (front back : Nat) :
    Declaration.packed (padded front text back) = text := by
  have hblanks : ∀ count, Declaration.packed (blanks count) = [] := by
    intro count
    simp [Declaration.packed, blanks]
  rw [padded, Declaration.packed_append, Declaration.packed_append, hblanks, hblanks,
    Declaration.packed_eq_self htext, List.nil_append, List.append_nil]

/-! ## Elements and gaps -/

/-- An element of a line, and how many spaces its canonical text has in front of it. -/
structure Element where
  text : List Char
  spaces : Nat
  tight : Bool := false

/-- How many more spaces stand in front of each element of a line. -/
abbrev Gaps := Nat → Nat

/-- The gaps behind some elements. -/
def Gaps.after (gaps : Gaps) (count : Nat) : Gaps :=
  fun index => gaps (count + index)

@[simp] theorem Gaps.after_apply (gaps : Gaps) (count index : Nat) :
    gaps.after count index = gaps (count + index) :=
  rfl

@[simp] theorem Gaps.after_zero (gaps : Gaps) : gaps.after 0 = gaps := by
  funext index
  rw [after_apply, Nat.zero_add]

@[simp] theorem Gaps.after_after (gaps : Gaps) (first second : Nat) :
    (gaps.after first).after second = gaps.after (first + second) := by
  funext index
  rw [after_apply, after_apply, after_apply, Nat.add_assoc]

/-- The text of elements with gaps. -/
def spread (gaps : Gaps) : List Element → List Char
  | [] => []
  | element :: rest =>
      blanks (element.spaces + gaps 0) ++ (element.text ++ spread (gaps.after 1) rest)

theorem spread_append (gaps : Gaps) (first second : List Element) :
    spread gaps (first ++ second) =
      spread gaps first ++ spread (gaps.after first.length) second := by
  induction first generalizing gaps with
  | nil => simp [spread]
  | cons element rest ih =>
      simp only [List.cons_append, spread, ih, Gaps.after_after, List.length_cons,
        List.append_assoc]
      rw [Nat.add_comm 1]

/-- The line of a row of elements. -/
def rowLine (gaps : Gaps) (row : List Element) : List Char :=
  spread gaps row ++ ['\n']

theorem rowLine_nil (gaps : Gaps) : rowLine gaps [] = ['\n'] := rfl

theorem rowLine_cons (gaps : Gaps) (element : Element) (row : List Element) :
    rowLine gaps (element :: row) =
      blanks (element.spaces + gaps 0) ++ (element.text ++ rowLine (gaps.after 1) row) := by
  simp only [rowLine, spread, List.append_assoc]

theorem rowLine_append (gaps : Gaps) (first second : List Element) :
    rowLine gaps (first ++ second) =
      spread gaps first ++ rowLine (gaps.after first.length) second := by
  rw [rowLine, spread_append, List.append_assoc, rowLine]

theorem exists_rowLine_concat (gaps : Gaps) (row : List Element) (mark : Char) (spaces : Nat) :
    ∃ front, rowLine gaps (row ++ [⟨[mark], spaces, false⟩]) = front ++ [mark, '\n'] := by
  rw [rowLine_append, rowLine_cons, rowLine_nil]
  exact ⟨_, (List.append_assoc ..).symm⟩

theorem mem_spread {gaps : Gaps} {elements : List Element} {c : Char}
    (hc : c ∈ spread gaps elements) :
    c = ' ' ∨ ∃ element ∈ elements, c ∈ element.text := by
  induction elements generalizing gaps with
  | nil => cases hc
  | cons element rest ih =>
      simp only [spread, List.mem_append] at hc
      rcases hc with hblank | hmem | hrest
      · exact Or.inl (eq_of_mem_blanks hblank)
      · exact Or.inr ⟨element, List.mem_cons_self .., hmem⟩
      · rcases ih hrest with hblank | ⟨other, hother, hmem⟩
        · exact Or.inl hblank
        · exact Or.inr ⟨other, List.mem_cons_of_mem _ hother, hmem⟩

/-- There are no more spaces in front of the tight elements. -/
def IsHarmless (gaps : Gaps) : List Element → Prop
  | [] => True
  | element :: rest => (element.tight = true → gaps 0 = 0) ∧ IsHarmless (gaps.after 1) rest

theorem isHarmless_append {gaps : Gaps} {first second : List Element} :
    IsHarmless gaps (first ++ second) ↔
      IsHarmless gaps first ∧ IsHarmless (gaps.after first.length) second := by
  induction first generalizing gaps with
  | nil => simp [IsHarmless]
  | cons element rest ih =>
      simp only [List.cons_append, IsHarmless, ih, Gaps.after_after, List.length_cons, and_assoc]
      rw [Nat.add_comm 1]

/-! ## The elements of a statement -/

/-- The elements of a size. -/
def sizeElements : Option Numeral → List Element
  | none => []
  | some numeral => [⟨['['], 0, false⟩, ⟨numeral.digits, 0, false⟩, ⟨[']'], 0, false⟩]

/-- The elements of a value. -/
def valueElements : Option Value → List Element
  | none => []
  | some value => [⟨['='], 1, false⟩, ⟨value.text, 1, false⟩]

/-- The elements of a declaration behind its colon. -/
def behindColon (type : Scalar) (value : Option Value) : List Element :=
  ⟨type.text, 1, false⟩ :: (valueElements value ++ [⟨[';'], 0, false⟩])

/-- The elements of a declaration from its colon on. -/
def typeElements (size : Option Numeral) (type : Scalar) (value : Option Value) : List Element :=
  ⟨[':'], 0, size.isSome⟩ :: behindColon type value

/-- The elements of a declaration behind its keyword. -/
def declarationElements (name : Name) (size : Option Numeral) (type : Scalar)
    (value : Option Value) : List Element :=
  ⟨name.text, 1, false⟩ :: (sizeElements size ++ typeElements size type value)

/-- The elements of an argument. -/
def Argument.elements : Argument → List Element
  | .dereferenced name => [⟨['*'], 1, false⟩, ⟨name.text, 0, true⟩]
  | argument => [⟨argument.text, 1, false⟩]

/-- The elements of a system call behind its number. -/
def argumentElements (error : Name) : List Argument → List Element
  | [] => [⟨[','], 0, false⟩, ⟨error.text, 1, false⟩, ⟨[';'], 0, false⟩]
  | argument :: rest => ⟨[','], 0, false⟩ :: (argument.elements ++ argumentElements error rest)

/-- The elements of a system call behind its keyword. -/
def callElements (number : CallNumber) (arguments : List Argument) (error : Name) : List Element :=
  ⟨number.text, 1, false⟩ :: argumentElements error arguments

/-- The elements of a simple statement behind its keyword. -/
def Simple.body : Simple → List Element
  | .constant name size type value => declarationElements name size type (some value)
  | .var name size type => declarationElements name size type none
  | .pointer name type value => declarationElements name none type value
  | .syscall number arguments _ error => callElements number arguments error

/-- The elements of a simple statement; its line is indented. -/
def Simple.row (indent : Nat) (statement : Simple) : List Element :=
  ⟨statement.opener.spelling, indent, false⟩ :: statement.body

/-- The elements of the head of a conditional. -/
def headRow (left : Operand) (comparison : Comparison) (right : Operand) : List Element :=
  [⟨Opener.cond.spelling, 0, false⟩, ⟨['('], 1, false⟩, ⟨left.text, 0, false⟩,
    ⟨comparison.text, 1, false⟩, ⟨right.text, 1, false⟩, ⟨[')'], 0, true⟩,
    ⟨[openBrace], 1, false⟩]

/-- The elements between the two blocks of a conditional. -/
def elseRow : List Element :=
  [⟨[closeBrace], 0, false⟩, ⟨['e', 'l', 's', 'e'], 1, false⟩, ⟨[openBrace], 1, false⟩]

/-- The elements behind the two blocks of a conditional. -/
def endRow : List Element :=
  [⟨[closeBrace], 0, true⟩]

/-- The rows of a statement. -/
def Statement.rows (indent : Nat) : Statement → List (List Element)
  | .simple statement => [statement.row 0]
  | .conditional left comparison right thenBlock elseBlock =>
      headRow left comparison right ::
        (thenBlock.map (Simple.row indent) ++ elseRow ::
          (elseBlock.map (Simple.row indent) ++ [endRow]))

/-! ## Lines with spaces -/

/-- The lines of rows, of which the first has the given number; each line has its own gaps. -/
def rowLines (gaps : Nat → Gaps) (number : Nat) : List (List Element) → List (List Char)
  | [] => []
  | row :: rest => rowLine (gaps number) row :: rowLines gaps (number + 1) rest

/-- The lines of a program with more spaces between its elements. -/
def printSpaced (gaps : Nat → Gaps) (indent : Nat) (program : List Statement) : List String :=
  (rowLines gaps 1 (program.flatMap (Statement.rows indent))).map String.ofList

/-- No line has more spaces in front of a tight element. -/
def AreHarmless (gaps : Nat → Gaps) (number : Nat) : List (List Element) → Prop
  | [] => True
  | row :: rest => IsHarmless (gaps number) row ∧ AreHarmless gaps (number + 1) rest

theorem rowLines_append (gaps : Nat → Gaps) (number : Nat) (first second : List (List Element)) :
    rowLines gaps number (first ++ second) =
      rowLines gaps number first ++ rowLines gaps (number + first.length) second := by
  induction first generalizing number with
  | nil => rfl
  | cons row rest ih =>
      rw [List.cons_append, rowLines, rowLines, ih, List.length_cons, List.cons_append,
        Nat.add_right_comm, Nat.add_assoc]

theorem areHarmless_append {gaps : Nat → Gaps} {number : Nat} {first second : List (List Element)} :
    AreHarmless gaps number (first ++ second) ↔
      AreHarmless gaps number first ∧ AreHarmless gaps (number + first.length) second := by
  induction first generalizing number with
  | nil => simp [AreHarmless]
  | cons row rest ih =>
      rw [List.cons_append, AreHarmless, AreHarmless, ih, List.length_cons, and_assoc,
        Nat.add_right_comm, Nat.add_assoc]

end LineCompiler.Flat
