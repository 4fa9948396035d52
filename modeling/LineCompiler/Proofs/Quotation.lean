import LineCompiler.Proofs.Initialised
import LineCompiler.Proofs.Token.Value

/-!
# Quoted values

Two scans go over a declaration with a value in quotes, and they do not agree on where a quoted text
ends.  The look for a comment knows backslashes and double quotes, but no single quotes; the reader
of the value knows both kinds of quotes, but no backslashes.  So a quotation reaches its token as it
stands exactly if neither is misled (`Quotation.Verbatim`): no comment is seen in it, every
semicolon in it is within quotes to the reader of the value, and its last quote closes.  This is so
if a quotation has no quote of its own kind in it and, between single quotes, no two slashes.  In
all other cases none of the tokens of the line has the quotation.
-/

namespace LineCompiler

open Text

/-! ## Quotations -/

/-- A text on one line between two quotes of the same kind, with a backslash before every such quote
in it. -/
structure Quotation where
  quote : Char
  body : List Char
  quote_ok : quote = singleQuote ∨ quote = doubleQuote
  escaped : Source.Escaped quote body
  oneLine : '\n' ∉ body

namespace Quotation

/-- The characters of a quotation, with its quotes. -/
def text (quotation : Quotation) : List Char :=
  quotation.quote :: (quotation.body ++ [quotation.quote])

/-- Quotations that the look for a comment passes over: those between double quotes, and those
between single quotes without a comment in the body, which is taken for code. -/
def Uncut (quotation : Quotation) : Prop :=
  quotation.quote = doubleQuote ∨ Source.codeFrom false false quotation.body = quotation.body

/-- Quotations that both scans take as a whole. -/
structure Verbatim (quotation : Quotation) : Prop where
  uncut : quotation.Uncut
  within : ∀ front back, quotation.text = front ++ ';' :: back →
    Declaration.quoteBehind none front ≠ none
  closed : Declaration.quoteBehind none quotation.text = none

/-- The text of a declaration in front of its equals sign. -/
def front (name : Identifier) : List Char :=
  (' ' :: name.text) ++ ':' :: [' ', 's', 't', 'r', ' ']

/-- The text of a declaration behind its keyword, without the line feed, as in ` s: str = "a";`. -/
def declaration (quotation : Quotation) (name : Identifier) : List Char :=
  front name ++ '=' :: ' ' :: (quotation.text ++ [';'])

variable (quotation : Quotation) (name : Identifier)

theorem quote_ne {mark : Char} (hmark : mark ∉ [singleQuote, doubleQuote]) :
    quotation.quote ≠ mark := by
  rintro rfl
  exact hmark (by simpa using quotation.quote_ok)

private theorem isLineTail_quote : Source.isLineTail quotation.quote = false := by
  rcases quotation.quote_ok with hquote | hquote <;> rw [hquote] <;> rfl

theorem getLast?_text : quotation.text.getLast? = some quotation.quote := by
  rw [text, ← List.cons_append, List.getLast?_concat]

theorem isBlank_quote : isBlank quotation.quote = false := by
  rcases quotation.quote_ok with hquote | hquote <;> rw [hquote] <;> rfl

theorem quoteAfter_quote : Declaration.quoteAfter none quotation.quote = some quotation.quote := by
  rcases quotation.quote_ok with hquote | hquote <;> rw [hquote] <;> rfl

private theorem newline_not_mem_text : '\n' ∉ quotation.text := by
  have hquote : '\n' ≠ quotation.quote := Ne.symm (quotation.quote_ne (by decide))
  simp [text, hquote, quotation.oneLine]

theorem strip_text : strip quotation.text = quotation.text :=
  trim_eq_self_of_ends quotation.isBlank_quote quotation.isBlank_quote rfl quotation.getLast?_text

/-! ## The look for a comment -/

theorem all_isInert_front : (front name).all Source.isInert = true := by
  have hname : name.text.all Source.isInert = true :=
    List.all_eq_true.mpr fun c hc => Flat.isInert_of_isPart (name.isPart_of_mem c hc)
  simp only [front, List.cons_append, List.all_cons, List.all_append, hname]
  rfl

/-- A line with a quotation has no comment, where none is seen in the quotation. -/
theorem codeFrom_text (huncut : quotation.Uncut) :
    Source.codeFrom false false (quotation.text ++ [';', '\n']) =
      quotation.text ++ [';', '\n'] := by
  have hsplit : quotation.text ++ [';', '\n'] =
      quotation.quote :: (quotation.body ++ quotation.quote :: [';', '\n']) := by
    simp [text]
  by_cases hquote : quotation.quote = doubleQuote
  · have hbody : Source.Escaped doubleQuote quotation.body := hquote ▸ quotation.escaped
    rw [hsplit, hquote, ← List.nil_append (doubleQuote :: _)]
    exact Source.codeFrom_of_string rfl hbody (by decide)
  · have hsingle : quotation.quote = singleQuote := quotation.quote_ok.resolve_right hquote
    have hbody := huncut.resolve_left hquote
    obtain ⟨flags, hflags⟩ :=
      Option.ne_none_iff_exists'.mp ((Source.codeFrom_eq_self_iff false false).mp hbody)
    have hinert : [singleQuote].all Source.isInert = true := by decide
    have hends : Source.codeFrom flags.1 flags.2 [singleQuote, ';', '\n'] =
        [singleQuote, ';', '\n'] :=
      Source.codeFrom_of_no_slashes (by decide) ..
    rw [hsplit, hsingle, ← List.singleton_append, Source.codeFrom_append_of_inert hinert,
      Source.codeFrom_append (fun _ => by decide), hbody, hflags, Option.elim_some, hends]

theorem stripComment_declaration (huncut : quotation.Uncut) :
    Source.stripComment (quotation.declaration name) =
      front name ++ '=' :: ' ' :: (quotation.text ++ [';', '\n']) := by
  have hsplit : quotation.declaration name ++ ['\n'] =
      (front name ++ ['=', ' '] ++ quotation.text) ++ [';', '\n'] := by
    simp [declaration]
  have hinert : (front name ++ ['=', ' ']).all Source.isInert = true := by
    rw [List.all_append, all_isInert_front]
    rfl
  rw [← Source.stripComment_append_feed, hsplit, Source.stripComment_eq_self _ (by decide)]
  · simp
  · rw [List.append_assoc, Source.codeFrom_append_of_inert hinert, quotation.codeFrom_text huncut]

/-- Where a comment is seen in the quotation, less than the quotation is left behind the equals
sign. -/
theorem exists_stripComment_declaration (hcut : ¬ quotation.Uncut) :
    ∃ left, Source.stripComment (quotation.declaration name) =
      front name ++ '=' :: ' ' :: quotation.quote :: left ∧
      left.length ≤ quotation.body.length := by
  have hsplit : quotation.declaration name =
      (front name ++ ['=', ' ', quotation.quote]) ++
        (quotation.body ++ [quotation.quote, ';']) := by
    simp [declaration, text]
  obtain ⟨hquote, hbody⟩ := not_or.mp hcut
  have hsingle : quotation.quote = singleQuote := quotation.quote_ok.resolve_right hquote
  have hinert : (front name ++ ['=', ' ', quotation.quote]).all Source.isInert = true := by
    rw [List.all_append, all_isInert_front, hsingle]
    rfl
  have hlast : (front name ++ ['=', ' ', quotation.quote]).getLast? = some quotation.quote := by
    simp
  have hnone : Source.flagsAfter false false quotation.body = none :=
    Decidable.byContradiction fun hflags =>
      hbody ((Source.codeFrom_eq_self_iff false false).mpr hflags)
  have hcode : Source.codeFrom false false (quotation.body ++ [quotation.quote, ';']) =
      Source.codeFrom false false quotation.body := by
    rw [Source.codeFrom_append (fun _ => by rw [hsingle]; decide), hnone, Option.elim_none,
      List.append_nil]
  have hshort : (Source.codeFrom false false quotation.body).length < quotation.body.length := by
    have hstart := Source.codeFrom_isPrefix quotation.body false false
    refine Nat.lt_of_le_of_ne hstart.length_le fun hlength => ?_
    exact hbody (hstart.eq_of_length hlength)
  refine ⟨Source.stripComment (quotation.body ++ [quotation.quote, ';']), ?_, ?_⟩
  · rw [hsplit, Source.stripComment_append hinert hlast quotation.isLineTail_quote]
    simp
  · have htrim := length_trimEnd_le Source.isLineTail (Source.codeFrom false false quotation.body)
    rw [Source.stripComment, hcode, List.length_append, List.length_singleton]
    omega

/-! ## The reader of the value -/

variable {quotation name} {form : Declaration.Form}

theorem valueText?_text_iff :
    Declaration.valueText? none (' ' :: (quotation.text ++ [';', '\n'])) =
      some (' ' :: quotation.text, ';') ↔
      (∀ front back, quotation.text = front ++ ';' :: back →
        Declaration.quoteBehind none front ≠ none) ∧
        Declaration.quoteBehind none quotation.text = none := by
  rw [Declaration.valueText?_eq_some_iff (List.mem_cons_self ..)]
  constructor
  · rintro ⟨-, ⟨-, hclosed⟩, hfirst⟩
    refine ⟨fun front back hsplit hnone => ?_, hclosed⟩
    exact hfirst (' ' :: front) ';' back (by rw [hsplit, List.cons_append]) ⟨Or.inl rfl, hnone⟩
  · rintro ⟨hwithin, hclosed⟩
    refine ⟨⟨['\n'], by simp⟩, ⟨Or.inl rfl, hclosed⟩, ?_⟩
    rintro front c back hsplit ⟨hmark, hnone⟩
    cases front with
    | nil =>
        obtain ⟨rfl, -⟩ := List.cons.inj hsplit
        exact absurd hmark (by decide)
    | cons space front =>
        obtain ⟨rfl, htext⟩ := List.cons.inj hsplit
        rcases hmark with rfl | rfl
        · exact hwithin front back htext hnone
        · exact quotation.newline_not_mem_text
            (htext ▸ List.mem_append_right front (List.mem_cons_self ..))

/-- The only value that is the quotation is read from the whole of it. -/
theorem valueText?_of_strip {found : List Char} {ending : Char}
    (hfound : Declaration.valueText? none (' ' :: (quotation.text ++ [';', '\n'])) =
      some (found, ending)) (hstrip : strip found = quotation.text) :
    found = ' ' :: quotation.text ∧ ending = ';' := by
  obtain ⟨⟨rest, hsplit⟩, -⟩ := Declaration.valueText?_sound (List.mem_cons_self ..) hfound
  cases found with
  | nil => cases hstrip
  | cons space value =>
      obtain ⟨rfl, hbehind⟩ := List.cons.inj hsplit
      have hvalue : strip value = quotation.text := (trim_cons_of (by decide)).symm.trans hstrip
      have hlength : quotation.text.length ≤ value.length := hvalue ▸ length_trim_le isBlank value
      rcases List.append_eq_append_iff.mp hbehind with ⟨more, rfl, hends⟩ | ⟨less, hless, hends⟩
      · rcases List.cons_eq_append_iff.mp hends with ⟨rfl, hends⟩ | ⟨others, rfl, hothers⟩
        · cases hends
          exact ⟨by rw [List.append_nil], rfl⟩
        · -- A semicolon at the end of the value would stay there.
          have hnil : others = [] := by
            cases others with
            | nil => rfl
            | cons c others => exact absurd hothers (by simp)
          subst hnil
          have hlast : (strip (quotation.text ++ [';'])).getLast? = some ';' :=
            getLast?_trim_append_singleton (by decide)
          rw [hvalue, quotation.getLast?_text] at hlast
          exact absurd (Option.some.inj hlast) (quotation.quote_ne (by decide))
      · have hnil : less = [] := by
          rw [hless, List.length_append] at hlength
          exact List.length_eq_zero_iff.mp (by omega)
        subst hnil
        cases hends
        exact ⟨by rw [hless, List.append_nil], rfl⟩

/-! ## The elements of the declaration -/

private theorem elements_append_feed {feed : List Char} (hfeed : feed = [] ∨ feed = ['\n'])
    (text : List Char) :
    Declaration.elements form (text ++ feed) = Declaration.elements form text := by
  rcases hfeed with rfl | rfl
  · rw [List.append_nil]
  · rw [Declaration.elements, Source.stripComment_append_feed, Declaration.elements]

/-- A quotation that both scans take as a whole is the value. -/
theorem elements_of_verbatim (hform : form.Standard) (hverbatim : quotation.Verbatim) :
    Declaration.elements form (quotation.declaration name) =
      Declaration.initialisedTokens form.sized name.text ['s', 't', 'r'] quotation.text := by
  have htype : ∀ c ∈ [' ', 's', 't', 'r', ' '], c ∉ [':', '=', ';', '\n'] := by simp
  have hstrip : strip (' ' :: quotation.text) = quotation.text :=
    (trim_cons_of (by decide)).trans quotation.strip_text
  have hvalue := valueText?_text_iff.mpr ⟨hverbatim.within, hverbatim.closed⟩
  have helements := Declaration.elementsFrom_initialised hform name.isNameChar_of_mem htype hvalue
  rw [name.packed_text, hstrip] at helements
  rw [Declaration.elements, quotation.stripComment_declaration name hverbatim.uncut, front,
    List.append_assoc]
  exact helements

/-- If the quotation is among the elements, then it is read behind an equals sign, from a longer
text. -/
theorem exists_tail_of_mem {rest : List Char}
    (hcode : Source.stripComment (quotation.declaration name) = front name ++ '=' :: rest)
    (hmem : .of .value (.ofChars quotation.text) ∈
      Declaration.elements form (quotation.declaration name)) :
    ∃ tail found ending, (tail = rest ∨ ∃ between, rest = between ++ '=' :: tail) ∧
      Declaration.valueText? none tail = some (found, ending) ∧ strip found = quotation.text ∧
        quotation.text.length < tail.length := by
  have hfront : '=' ∉ front name := by
    have hname : '=' ∉ name.text := name.not_mem_text (by decide)
    simp [front, hname]
  have hvalue := (Declaration.isValueIn_of_mem hmem).resolve_left (List.not_mem_nil)
  rw [hcode] at hvalue
  obtain ⟨tail, found, ending, htail, hfound, heq⟩ := hvalue.exists_behind hfront
  have hstrip : strip found = quotation.text := (String.ofList_injective (Atom.text.inj heq)).symm
  exact ⟨tail, found, ending, htail, hfound, hstrip, hstrip ▸ Declaration.length_strip_lt hfound⟩

/-- A quotation among the elements is one that both scans take as a whole. -/
theorem verbatim_of_mem
    (hmem : .of .value (.ofChars quotation.text) ∈
      Declaration.elements form (quotation.declaration name)) :
    quotation.Verbatim := by
  have hlength : quotation.text.length = quotation.body.length + 2 := by simp [text]
  by_cases huncut : quotation.Uncut
  · obtain ⟨tail, found, ending, htail, hfound, hstrip, hshort⟩ :=
      exists_tail_of_mem (quotation.stripComment_declaration name huncut) hmem
    rcases htail with rfl | ⟨between, hbetween⟩
    · obtain ⟨rfl, rfl⟩ := valueText?_of_strip hfound hstrip
      obtain ⟨hwithin, hclosed⟩ := valueText?_text_iff.mp hfound
      exact ⟨huncut, hwithin, hclosed⟩
    · -- Another equals sign stands behind the first quote, so too little follows it.
      match between, hbetween with
      | [_], hbetween =>
          obtain ⟨-, hbehind⟩ := List.cons.inj hbetween
          exact absurd (List.cons.inj hbehind).1 (quotation.quote_ne (by decide))
      | _ :: _ :: between, hbetween =>
          have hlengths := congrArg List.length hbetween
          simp only [List.length_cons, List.length_append, List.length_nil] at hlengths
          omega
  · obtain ⟨left, hleft, hless⟩ := quotation.exists_stripComment_declaration name huncut
    obtain ⟨tail, found, ending, htail, hfound, hstrip, hshort⟩ := exists_tail_of_mem hleft hmem
    have hwhole : tail.length ≤ left.length + 2 := by
      rcases htail with rfl | ⟨between, hbetween⟩
      · simp
      · have hlengths := congrArg List.length hbetween
        simp only [List.length_cons, List.length_append] at hlengths
        omega
    omega

/-! ## Simple quotations -/

/-- A quotation without its own quote within and, between single quotes, without two slashes. -/
theorem verbatim_of_simple (hquote : quotation.quote ∉ quotation.body)
    (hslashes : quotation.quote = doubleQuote ∨ ¬ Source.slashes <:+: quotation.body) :
    quotation.Verbatim where
  uncut := hslashes.imp_right fun hnone => Source.codeFrom_of_no_slashes hnone ..
  within := by
    intro front back hsplit hnone
    cases front with
    | nil =>
        obtain ⟨hfirst, -⟩ := List.cons.inj hsplit
        exact quotation.quote_ne (by decide) hfirst
    | cons first front =>
        obtain ⟨rfl, hbehind⟩ := List.cons.inj hsplit
        have hwhole : front <+: quotation.body ++ [quotation.quote] := ⟨_, hbehind.symm⟩
        rcases List.prefix_concat_iff.mp hwhole with rfl | hfront
        · exact absurd hbehind (by simp)
        · rw [Declaration.quoteBehind_cons, quoteAfter_quote,
            Declaration.quoteBehind_of_not_mem fun hmem => hquote (hfront.subset hmem)] at hnone
          cases hnone
  closed := by
    rw [text, Declaration.quoteBehind_cons, quoteAfter_quote, Declaration.quoteBehind_append,
      Declaration.quoteBehind_of_not_mem hquote]
    exact if_pos rfl

end Quotation

/-! ## Lines -/

/-- The words that open a declaration, with the form of the declaration. -/
def Declaration.openers : List (Opener × Form) :=
  [(.const, .constants), (.var, .vars), (.ptr, .pointers)]

private theorem Declaration.standard_of_openers {opener : Opener} {form : Form}
    (hopener : (opener, form) ∈ openers) :
    form.Standard ∧ ∀ line text, opener.elements line text = .ok (elements form text) := by
  simp only [openers, List.mem_cons, List.not_mem_nil, or_false, Prod.mk.injEq] at hopener
  rcases hopener with ⟨rfl, rfl⟩ | ⟨rfl, rfl⟩ | ⟨rfl, rfl⟩
  · exact ⟨Form.standard (by simp), fun _ _ => rfl⟩
  · exact ⟨Form.standard (by simp), fun _ _ => rfl⟩
  · exact ⟨Form.standard (by simp), fun _ _ => rfl⟩

/-- **Which quotations are taken as they stand.**  Let a source be one line that declares a
constant, a variable or a pointer with a quotation as its value, with or without a line feed at its
end.  The line is scanned.  If both scans take the quotation as a whole, then its tokens are those
of the declaration, with the quotation and behind it the semicolon; otherwise no token has the
quotation as its value.  The scans do so if no quote of the same kind stands in the quotation and,
between single quotes, no two slashes. -/
theorem lex_quotation (quotation : Quotation) (name : Identifier) {opener : Opener}
    {form : Declaration.Form} (hopener : (opener, form) ∈ Declaration.openers) {names : Names}
    (hnames : Scan.beginningTokens names opener = []) {feed : List Char}
    (hfeed : feed = [] ∨ feed = ['\n']) :
    (∃ tokens,
      lex names [String.ofList (opener.spelling ++ (quotation.declaration name ++ feed))] =
          { lines := [⟨{ number := .integer 1
                         content :=
                           String.ofList (opener.spelling ++
                             (quotation.declaration name ++ feed)) },
              .keyword opener.keyword :: tokens⟩]
            names := names.append (opener.declares tokens) } ∧
        (quotation.Verbatim →
          tokens = Declaration.initialisedTokens form.sized name.text
            ['s', 't', 'r'] quotation.text) ∧
        (¬ quotation.Verbatim → .of .value (.ofChars quotation.text) ∉ tokens)) ∧
      (quotation.quote ∉ quotation.body →
        (quotation.quote = doubleQuote ∨ ¬ Source.slashes <:+: quotation.body) →
          quotation.Verbatim) := by
  obtain ⟨hform, helements⟩ := Declaration.standard_of_openers hopener
  have hline := lex_opener opener (by simp [Quotation.declaration, Quotation.front]) hnames
    (helements _ (quotation.declaration name ++ feed))
  rw [Quotation.elements_append_feed hfeed] at hline
  refine ⟨⟨_, hline, ?_, ?_⟩, Quotation.verbatim_of_simple⟩
  · exact Quotation.elements_of_verbatim hform
  · exact mt Quotation.verbatim_of_mem

namespace Quotation

theorem isAlpha_u : 'u'.isAlpha = true := rfl

/-- The quotation `"it's; // so"`. -/
def remark : Quotation where
  quote := doubleQuote
  body := ['i', 't', singleQuote, 's', ';', ' ', '/', '/', ' ', 's', 'o']
  quote_ok := Or.inr rfl
  escaped := .of_not_mem (by decide) (by decide)
  oneLine := by decide

/-- The quotation `"a\"b"`. -/
def withQuote : Quotation where
  quote := doubleQuote
  body := ['a', '\\', doubleQuote, 'b']
  quote_ok := Or.inr rfl
  escaped :=
    .plain (by decide) (by decide) (.pair doubleQuote (.plain (by decide) (by decide) .nil))
  oneLine := by decide

/-- The quotation `'a//b'`. -/
def withSlashes : Quotation where
  quote := singleQuote
  body := ['a', '/', '/', 'b']
  quote_ok := Or.inl rfl
  escaped := .of_not_mem (by decide) (by decide)
  oneLine := by decide

end Quotation

open Quotation in
theorem lex_quotation_remark :
    Scan.beginningTokens {} .ptr = [] ∧
      (lex {} ["ptr u: str = \"it's; // so\";\n"]).lines =
        [⟨{ number := .integer 1, content := "ptr u: str = \"it's; // so\";\n" },
          [.keyword .ptr, .of .word (.text "u"), .of .type (.text "str"),
            .of .value (.text "\"it's; // so\""),
            .symbol .semicolon]⟩] := by
  have hnames : Scan.beginningTokens {} .ptr = [] := by decide
  have hline : String.ofList
      (Opener.ptr.spelling ++ (remark.declaration (.ofLetter 'u' isAlpha_u) ++ ['\n'])) =
      "ptr u: str = \"it's; // so\";\n" := by decide
  obtain ⟨⟨tokens, hlex, htokens, -⟩, hsimple⟩ := lex_quotation remark (.ofLetter 'u' isAlpha_u)
    (show (Opener.ptr, Declaration.Form.pointers) ∈ Declaration.openers by
      simp [Declaration.openers]) hnames
    (Or.inr rfl)
  rw [hline, htokens (hsimple (by decide) (Or.inl rfl))] at hlex
  exact ⟨hnames, congrArg Lexed.lines hlex⟩

open Quotation in
/-- A double quote behind a backslash hides the end of a value, and two slashes between single
quotes cut it off. -/
theorem quoted_values_lost :
    let line (quotation : Quotation) :=
      String.ofList (Opener.const.spelling ++
        (quotation.declaration (.ofLetter 'u' isAlpha_u) ++ ['\n']))
    let tokens : List Token :=
      [.keyword .const, .of .word (.text "u"), .of .dynamicSize (.integer 8),
        .of .type (.text "str")]
    (line withQuote = "const u: str = \"a\\\"b\";\n" ∧
        (lex {} [line withQuote]).lines =
          [⟨{ number := .integer 1, content := line withQuote }, tokens⟩]) ∧
      line withSlashes = "const u: str = 'a//b';\n" ∧
        (lex {} [line withSlashes]).lines =
          [⟨{ number := .integer 1, content := line withSlashes }, tokens⟩] := by
  exact ⟨⟨by decide, rfl⟩, by decide, rfl⟩

end LineCompiler
