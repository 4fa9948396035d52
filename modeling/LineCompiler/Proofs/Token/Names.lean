import LineCompiler.Proofs.Program.Order
import LineCompiler.Proofs.Token.Agreement
import LineCompiler.Proofs.Token.Declaration
import LineCompiler.Proofs.Token.Renumber
import LineCompiler.Proofs.Token.Stream

/-!
# Names and declarations

The names that a scan keeps are those it has started with, followed by the words on the lines that
declare names: constants on lines that open with `const`, variables on lines that open with `var`,
and pointers on lines that open with `ptr`.  Such a line declares at most one name, and no line
declares a function.  The token of a declared name carries one that has been declared before its own
line (`names_lex`).

A declaration may have many colons and brackets, but only the first of them ends a name, and only if
no equals sign before it has given a value.  So a declaration has a word only as its first element,
and only if it is written with the name in front (`headed_elements`).
-/

namespace LineCompiler

/-- The values of the words among tokens. -/
def wordsOf (tokens : List Token) : List Atom :=
  tokens.filterMap fun token =>
    match token with
    | .of .word value => some value
    | _ => none

theorem wordsOf_append (tokens more : List Token) :
    wordsOf (tokens ++ more) = wordsOf tokens ++ wordsOf more :=
  List.filterMap_append ..

/-! ## The word of a declaration -/

namespace Declaration

variable {form : Form} {found : List Token}

/-- Whether a declaration is written with its name in front: a colon or a bracket comes before every
equals sign that gives a value. -/
def namesFirst : List Char → Bool
  | [] => false
  | c :: rest =>
      if c = ':' || c = '[' then true
      else if c = '=' && (valueText? none rest).isSome then false
      else namesFirst rest

/-- Elements with a word as the first one and nowhere else, or without a word. -/
inductive Headed : Bool → List Token → Prop
  | named (name : List Char) {others : List Token} (hothers : wordsOf others = []) :
      Headed true (.of .word (.ofChars name) :: others)
  | unnamed {found : List Token} (hfound : wordsOf found = []) : Headed false found

theorem wordsOf_of_all_isPart {more : List Token} (hmore : more.all isPart) :
    wordsOf more = [] := by
  rw [wordsOf, List.filterMap_eq_nil_iff]
  intro token htoken
  have hpart := List.all_eq_true.mp hmore token htoken
  split
  · exact absurd hpart (by simp [isPart, Token.symbol])
  · rfl

/-- Once there are elements, no word is added. -/
theorem elementsFrom_eq_append (hne : found ≠ []) (word rest : List Char) :
    ∃ more, elementsFrom form found word rest = found ++ more ∧ wordsOf more = [] := by
  induction rest generalizing found word with
  | nil => exact ⟨[], (List.append_nil _).symm, rfl⟩
  | cons c rest ih =>
      obtain ⟨more, hafter, hparts⟩ := elementsAfter_eq_append form found word c rest
      have hmore := wordsOf_of_all_isPart hparts
      rw [endsName_of_ne_nil hne, if_neg (by decide)] at hafter
      simp only [elementsFrom, hafter]
      split
      · exact ih hne word
      · split
        · exact ⟨more, rfl, hmore⟩
        · obtain ⟨others, hothers, hnone⟩ := ih (List.append_ne_nil_of_left_ne_nil hne more) _
          refine ⟨more ++ others, ?_, ?_⟩
          · rw [hothers, List.append_assoc]
          · rw [wordsOf_append, hmore, hnone, List.append_nil]

/-- The first elements of a declaration decide whether it has a word. -/
theorem exists_elementsFrom_cons {word rest : List Char} {c : Char} {after : List Token}
    (hspace : c ≠ ' ') (hafter : elementsAfter form [] word c rest = after) (hne : after ≠ []) :
    ∃ more, elementsFrom form [] word (c :: rest) = after ++ more ∧ wordsOf more = [] := by
  subst hafter
  rw [elementsFrom_cons hspace hne, continued]
  split
  · exact ⟨[], (List.append_nil _).symm, rfl⟩
  · exact elementsFrom_eq_append hne [] rest

/-- A character that neither ends the name nor gives a value is passed over. -/
theorem elementsFrom_pass (hform : Open form []) {word rest : List Char} {c : Char}
    (hends : ¬ (c = ':' ∨ c = '[')) (hvalue : ¬ (c = '=' ∧ (valueText? none rest).isSome)) :
    ∃ longer, elementsFrom form [] word (c :: rest) = elementsFrom form [] longer rest := by
  rw [not_or] at hends
  have hafter : elementsAfter form [] word c rest = [] := by
    simp only [elementsAfter, endsName, hends, decide_false, Bool.or_self, Bool.and_false,
      Bool.false_eq_true, if_false]
    split
    · rename_i hequals
      have hnone : valueText? none rest = none := by
        rw [← Option.not_isSome_iff_eq_none]
        exact fun hsome => hvalue ⟨hequals, hsome⟩
      simp only [withValue, hnone]
    · rfl
  simp only [elementsFrom, hafter, if_neg hform.not_complete]
  split
  · exact ⟨word, rfl⟩
  · exact ⟨_, rfl⟩

private theorem headed_elementsFrom (hform : Open form []) (word rest : List Char) :
    Headed (namesFirst rest) (elementsFrom form [] word rest) := by
  -- As long as there are no elements only the word grows, so the first character that adds one
  -- decides.
  induction rest generalizing word with
  | nil => exact .unnamed rfl
  | cons c rest ih =>
      obtain ⟨more, hafter, hparts⟩ := elementsAfter_eq_append form [] word c rest
      have hmore := wordsOf_of_all_isPart hparts
      by_cases hends : c = ':' ∨ c = '['
      · have hname : endsName [] c = true := by simpa [endsName] using hends
        have hspace : c ≠ ' ' := by rcases hends with rfl | rfl <;> decide
        rw [hname, if_pos rfl] at hafter
        obtain ⟨others, hfrom, hothers⟩ := exists_elementsFrom_cons hspace hafter (by simp)
        have hfirst : namesFirst (c :: rest) = true := if_pos (by simpa using hends)
        rw [hfirst, hfrom, List.append_assoc, List.singleton_append]
        exact .named word (by rw [wordsOf_append, hmore, hothers, List.append_nil])
      · have hname : endsName [] c = false := by simpa [endsName] using hends
        rw [hname, if_neg (by decide), List.nil_append] at hafter
        by_cases hvalue : c = '=' ∧ (valueText? none rest).isSome
        · obtain ⟨rfl, hsome⟩ := hvalue
          have hne : more ≠ [] := by
            obtain ⟨value, hvalue⟩ := Option.isSome_iff_exists.mp hsome
            rw [← hafter]
            simp [elementsAfter, endsName, withValue, hvalue]
          obtain ⟨others, hfrom, hothers⟩ := exists_elementsFrom_cons (by decide) hafter hne
          have hfirst : namesFirst ('=' :: rest) = false := by simp [namesFirst, hsome]
          rw [hfirst, hfrom]
          exact .unnamed (by rw [wordsOf_append, hmore, hothers, List.append_nil])
        · obtain ⟨longer, hfrom⟩ := elementsFrom_pass hform hends hvalue
          have hfirst : namesFirst (c :: rest) = namesFirst rest := by
            rw [namesFirst, if_neg (by simpa using hends), if_neg (by simpa using hvalue)]
          rw [hfirst, hfrom]
          exact ih longer

/-- A declaration has a word exactly if it is written with its name in front, and then only one. -/
theorem headed_elements {form : Form} (hform : Open form []) (text : List Char) :
    Headed (namesFirst (Source.stripComment text)) (elements form text) :=
  headed_elementsFrom hform [] (Source.stripComment text)

theorem namesOf_eq_nil (hfound : wordsOf found = []) : namesOf found = [] := by
  rw [namesOf, List.filterMap_eq_nil_iff]
  intro token htoken
  have hnone := List.filterMap_eq_nil_iff.mp hfound token htoken
  split
  · cases hnone
  · rfl

/-- A declaration declares the words among its elements. -/
theorem Headed.map_namesOf {first : Bool} (hfound : Headed first found) :
    (namesOf found).map .text = wordsOf found := by
  cases hfound with
  | named name hothers =>
      show Atom.text _ :: (namesOf _).map .text = Atom.ofChars name :: wordsOf _
      rw [namesOf_eq_nil hothers, hothers]
      rfl
  | unnamed hnone => rw [namesOf_eq_nil hnone, hnone, List.map_nil]

private theorem Headed.length_wordsOf_le {first : Bool} (hfound : Headed first found) :
    (wordsOf found).length ≤ 1 := by
  cases hfound with
  | named name hothers =>
      show (wordsOf _).length + 1 ≤ 1
      rw [hothers]
      exact Nat.le_refl 1
  | unnamed hnone =>
      rw [hnone]
      exact Nat.zero_le 1

end Declaration

/-! ## What a line declares -/

/-- The names of a kind in a collection. -/
def Names.ofKind (names : Names) : TokenKind → List String
  | .constantName => names.constants
  | .variableName => names.vars
  | .pointerName => names.pointers
  | .functionName => names.functions
  | _ => []

theorem Names.ofKind_append (first second : Names) (kind : TokenKind) :
    (first.append second).ofKind kind = first.ofKind kind ++ second.ofKind kind := by
  cases kind <;> rfl

/-- The word that declares names of a kind; functions have none. -/
def TokenKind.declaredBy? : TokenKind → Option Opener
  | .constantName => some .const
  | .variableName => some .var
  | .pointerName => some .ptr
  | _ => none

/-- What a line declares of a kind: the words on it, if it opens with the word that declares
them. -/
def TokenLine.declared (kind : TokenKind) (line : TokenLine) : List Atom :=
  match kind.declaredBy? with
  | some opener => if line.opener? = some opener then wordsOf line.tokens else []
  | none => []

theorem TokenLine.declared_of_opener? {line : TokenLine} {opener : Opener}
    (hopener : line.opener? = some opener) (kind : TokenKind) :
    line.declared kind = if kind.declaredBy? = some opener then wordsOf line.tokens else [] := by
  unfold declared
  rw [hopener]
  cases kind.declaredBy? with
  | none => rfl
  | some other => simp only [Option.some.injEq, eq_comm]

private theorem TokenLine.declared_of_none {line : TokenLine} (hopener : line.opener? = none)
    (kind : TokenKind) : line.declared kind = [] := by
  unfold declared
  rw [hopener]
  cases kind.declaredBy? <;> rfl

private theorem Opener.ofKind_declares (opener : Opener) (elements : List Token)
    (kind : TokenKind) :
    (opener.declares elements).ofKind kind =
      if kind.declaredBy? = some opener then Declaration.namesOf elements else [] := by
  cases opener <;> cases kind <;> rfl

/-- The elements of a statement that declares names are those of a declaration. -/
theorem Opener.headed_of_declaredBy? {opener : Opener} {kind : TokenKind} {line : SourceLine}
    {rest : List Char} {elements : List Token} (hkind : kind.declaredBy? = some opener)
    (helements : opener.elements line rest = .ok elements) :
    Declaration.Headed (Declaration.namesFirst (Source.stripComment rest)) elements := by
  cases opener with
  | const | var | ptr =>
      cases helements
      refine Declaration.headed_elements ?_ rest
      unfold Declaration.Open
      decide
  | syscall | cond => exact absurd hkind (by cases kind <;> simp [TokenKind.declaredBy?])

namespace Scan

variable {line : SourceLine} {scanned : Scanned}

/-- The names that the scan of a line declares are those that its tokens say, and there is at most
one of a kind. -/
theorem Finds.declared (hfinds : Finds line scanned) (kind : TokenKind) :
    (scanned.declared.ofKind kind).map .text = TokenLine.declared kind ⟨line, scanned.tokens⟩ ∧
      (TokenLine.declared kind ⟨line, scanned.tokens⟩).length ≤ 1 := by
  cases hfinds with
  | @statement opener front rest elements blocks hcontent hfront helements =>
      have hopener : TokenLine.opener? ⟨line, .keyword opener.keyword :: elements⟩ = some opener :=
        Opener.ofToken?_keyword opener
      rw [Opener.ofKind_declares, TokenLine.declared_of_opener? hopener]
      split
      · rename_i hkind
        have hheaded := Opener.headed_of_declaredBy? hkind helements
        exact ⟨hheaded.map_namesOf, hheaded.length_wordsOf_le⟩
      · exact ⟨rfl, Nat.zero_le 1⟩
  | @other tokens blocks htokens =>
      have hopener : TokenLine.opener? ⟨line, tokens⟩ = none := by
        cases tokens with
        | nil => rfl
        | cons first tokens =>
            exact Opener.ofToken?_eq_none fun opener hfirst =>
              htokens.first opener (by rw [hfirst]; rfl)
      rw [TokenLine.declared_of_none hopener]
      exact ⟨by cases kind <;> rfl, Nat.zero_le 1⟩

/-- The token of a declared name comes from the names that the line is scanned with. -/
theorem mem_ofKind_of_scanLine {names : Names} {blocks : Blocks} {kind : TokenKind} {value : Atom}
    (hline : (scanLine names blocks line).outcome = .ok scanned) (hkind : kind.isName = true)
    (hvalue : .of kind value ∈ scanned.tokens) : value ∈ (names.ofKind kind).map .text := by
  obtain ⟨more, htokens, hmore⟩ := exists_tokens_of_run hline
  rw [htokens, List.nil_append] at hvalue
  rcases hmore _ hvalue with hplain | ⟨word, hword⟩
  · rw [Token.isPlain_of, hkind] at hplain
    exact absurd hplain (by decide)
  · rw [List.mem_map]
    refine ⟨String.ofList word, ?_⟩
    rcases mem_nameTokens.mp hword with ⟨hmem, heq⟩ | ⟨hmem, heq⟩ | ⟨hmem, heq⟩ | ⟨hmem, heq⟩ <;>
    · cases heq
      exact ⟨hmem, rfl⟩

end Scan

/-! ## What a source declares -/

namespace Lexed

/-- A scan keeps the names it has started with, and those that its lines declare behind them. -/
theorem map_ofKind_scan (names : Names) (blocks : Blocks) (source : List SourceLine)
    (kind : TokenKind) :
    ((scan names blocks source).names.ofKind kind).map .text =
      (names.ofKind kind).map .text ++
        (scan names blocks source).lines.flatMap (TokenLine.declared kind) := by
  induction source generalizing names blocks with
  | nil => exact (List.append_nil _).symm
  | cons line rest ih =>
      cases hline : (Scan.scanLine names blocks line).outcome with
      | error fault =>
          rw [scan_cons_error hline]
          exact (List.append_nil _).symm
      | ok scanned =>
          have hdeclared := ((Scan.finds_scanLine hline).declared kind).1
          rw [scan_cons_ok hline]
          simp only [List.flatMap_cons]
          rw [ih, Names.ofKind_append, List.map_append, hdeclared, List.append_assoc]

end Lexed

/-- **Names and declarations.**  Whether a scan ends early or not, the names it leaves are those it
has started with, followed by the words on the lines that declare names, at most one of each line;
the functions stay as they were.  A token of a declared name carries a name that was there from the
start or that an earlier line declares. -/
theorem names_lex (names : Names) (source : List String) :
    (∀ kind : TokenKind, ((lex names source).names.ofKind kind).map .text =
        (names.ofKind kind).map .text ++
          (lex names source).lines.flatMap (TokenLine.declared kind)) ∧
      (lex names source).names.functions = names.functions ∧
      (∀ line ∈ (lex names source).lines, ∀ kind, (line.declared kind).length ≤ 1) ∧
      ∀ front line back, (lex names source).lines = front ++ line :: back →
        ∀ (kind : TokenKind) (value : Atom), kind.isName = true → .of kind value ∈ line.tokens →
          value ∈ (names.ofKind kind).map .text ++ front.flatMap (TokenLine.declared kind) := by
  refine ⟨Lexed.map_ofKind_scan names {} _, ?_, ?_, ?_⟩
  · have hfunctions := Lexed.map_ofKind_scan names {} (SourceLine.link source) .functionName
    have hnone : ∀ lines : List TokenLine,
        lines.flatMap (TokenLine.declared .functionName) = [] := by
      intro lines
      rw [List.flatMap_eq_nil_iff]
      exact fun line _ => rfl
    rw [hnone, List.append_nil] at hfunctions
    exact (List.map_inj_right fun _ _ => Atom.text.inj).mp hfunctions
  · intro line hline kind
    obtain ⟨scanned, hfinds, htokens⟩ := Lexed.finds_of_mem hline
    have hle := (hfinds.declared kind).2
    rwa [← htokens] at hle
  · intro front line back hlines kind value hkind hvalue
    obtain ⟨last, scanned, hfront, hscan, htokens⟩ := Lexed.scan_split hlines
    have hmem := Scan.mem_ofKind_of_scanLine hscan hkind (htokens ▸ hvalue)
    rwa [Lexed.map_ofKind_scan, hfront] at hmem

end LineCompiler
