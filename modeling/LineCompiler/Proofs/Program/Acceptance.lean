import LineCompiler.Proofs.Program.Order
import LineCompiler.Proofs.Token.Stream

/-!
# Which token lines are read

The tokens of a line are read by their places: a declaration has its type at one index and its value
at the next, and a condition has its comparison between its operands.  A scanned line may be too
short for that, or have something else at these places; it is read exactly if it is `isComplete`.

A statement inside a block goes to the conditional under construction, so there must be one.  Token
lines are read exactly if all of them are complete and none of their statements is without a
conditional (`read_isOk_iff`).
-/

namespace LineCompiler

namespace TokenLine

/-- Whether the token at an index names a type. -/
def namesType (line : TokenLine) (index : Nat) : Bool :=
  match line.tokens[index]? with
  | some (.of _ value) => (TypeName.ofSpelling? value).isSome
  | _ => false

/-- The spellings of comparisons in programs. -/
def relationSpellings : List Atom :=
  [.text "==", .text "!=", .text ">", .text ">=", .text "<", .text "<="]

/-- Whether the token at an index spells a comparison. -/
def spellsRelation (line : TokenLine) (index : Nat) : Bool :=
  match line.tokens[index]? with
  | some (.of _ value) => relationSpellings.contains value
  | _ => false

/-- Whether the statement of a line has what it needs in its places. -/
def isComplete (line : TokenLine) : Bool :=
  match line.opener? with
  | some .const | some .var => line.namesType 3 && 5 ≤ line.tokens.length
  | some .ptr => line.namesType 2 && 4 ≤ line.tokens.length
  | some .cond => line.spellsRelation 3 && 5 ≤ line.tokens.length
  | some .syscall | none => true

end TokenLine

namespace Reader

open Token (entryAt valueAt)

/-! ## Tokens in their places -/

/-- Tokens of which none is blank are given by their kinds and values. -/
theorem exists_entries {tokens : List Token} (htokens : .blank ∉ tokens) :
    ∃ entries : List (TokenKind × Atom),
      tokens = entries.map fun entry => .of entry.1 entry.2 := by
  induction tokens with
  | nil => exact ⟨[], rfl⟩
  | cons token tokens ih =>
      rw [List.mem_cons, not_or] at htokens
      obtain ⟨entries, rfl⟩ := ih htokens.2
      cases token with
      | blank => exact absurd rfl htokens.1
      | of kind value => exact ⟨(kind, value) :: entries, rfl⟩

private theorem relationOf_isOk (value : Atom) :
    (relationOf value).isOk = TokenLine.relationSpellings.contains value := by
  unfold relationOf
  split
  case h_7 hequal hnotEqual hgreater hgreaterEqual hsmaller hsmallerEqual =>
    have hother : value ∉ TokenLine.relationSpellings := by
      simp only [TokenLine.relationSpellings, List.mem_cons, List.not_mem_nil, or_false]
      rintro (rfl | rfl | rfl | rfl | rfl | rfl)
      · exact hequal rfl
      · exact hnotEqual rfl
      · exact hgreater rfl
      · exact hgreaterEqual rfl
      · exact hsmaller rfl
      · exact hsmallerEqual rfl
    simpa [Except.isOk, Except.toBool] using hother
  all_goals rfl

/-- A node that needs a type is read if the type is known. -/
theorem isOk_map_typeOf (f : TypeName → Node) (type : Atom) :
    ((typeOf type).map f).isOk = (TypeName.ofSpelling? type).isSome := by
  unfold typeOf
  cases TypeName.ofSpelling? type <;> rfl

/-- A node that needs a comparison is read if the comparison is known. -/
theorem isOk_map_relationOf (f : Relation → Node) (spelling : Atom) :
    ((relationOf spelling).map f).isOk = TokenLine.relationSpellings.contains spelling := by
  rw [← relationOf_isOk]
  cases relationOf spelling <;> rfl

section Places

variable {line : SourceLine} {tokens : List Token} (htokens : .blank ∉ tokens)

include htokens

private theorem constant_isOk :
    (constant line.number tokens).isOk =
      ((⟨line, tokens⟩ : TokenLine).namesType 3 && 5 ≤ tokens.length) := by
  obtain ⟨entries, rfl⟩ := exists_entries htokens
  rcases entries with _ | ⟨_, _ | ⟨_, _ | ⟨_, _ | ⟨⟨_, type⟩, _ | ⟨_, _⟩⟩⟩⟩⟩
  case cons.cons.cons.cons.cons =>
    refine (isOk_map_typeOf _ type).trans ?_
    simp [TokenLine.namesType]
  case cons.cons.cons.cons.nil => exact (Bool.and_false _).symm
  all_goals rfl

private theorem variableNode_isOk :
    (variableNode line.number tokens).isOk =
      ((⟨line, tokens⟩ : TokenLine).namesType 3 && 5 ≤ tokens.length) := by
  obtain ⟨entries, rfl⟩ := exists_entries htokens
  rcases entries with _ | ⟨_, _ | ⟨_, _ | ⟨_, _ | ⟨⟨_, type⟩, _ | ⟨_, _⟩⟩⟩⟩⟩
  case cons.cons.cons.cons.cons =>
    refine (isOk_map_typeOf _ type).trans ?_
    simp [TokenLine.namesType]
  case cons.cons.cons.cons.nil => exact (Bool.and_false _).symm
  all_goals rfl

private theorem pointer_isOk :
    (pointer line.number tokens).isOk =
      ((⟨line, tokens⟩ : TokenLine).namesType 2 && 4 ≤ tokens.length) := by
  obtain ⟨entries, rfl⟩ := exists_entries htokens
  rcases entries with _ | ⟨_, _ | ⟨_, _ | ⟨⟨_, type⟩, _ | ⟨_, _⟩⟩⟩⟩
  case cons.cons.cons.cons =>
    refine (isOk_map_typeOf _ type).trans ?_
    simp [TokenLine.namesType]
  case cons.cons.cons.nil => exact (Bool.and_false _).symm
  all_goals rfl

private theorem condition_isOk :
    (condition tokens).isOk =
      ((⟨line, tokens⟩ : TokenLine).spellsRelation 3 && 5 ≤ tokens.length) := by
  obtain ⟨entries, rfl⟩ := exists_entries htokens
  rcases entries with _ | ⟨_, _ | ⟨_, _ | ⟨_, _ | ⟨⟨_, spelling⟩, _ | ⟨_, _⟩⟩⟩⟩⟩
  case cons.cons.cons.cons.cons =>
    refine (isOk_map_relationOf _ spelling).trans ?_
    simp [TokenLine.spellsRelation]
  case cons.cons.cons.cons.nil => exact (Bool.and_false _).symm
  all_goals rfl

end Places

/-! ## System calls -/

/-- Whether a token is the star of a dereferenced argument. -/
def isStar : Token → Bool
  | .of kind _ => kind = .dereference
  | .blank => false

/-- How many arguments tokens stand for: a star belongs to the token after it. -/
def argumentCount (tokens : List Token) : Nat :=
  tokens.countP fun token => !isStar token

/-- An argument of a system call. -/
def IsArgument (node : Node) : Prop :=
  (∃ value, node = .bare value) ∨ ∃ name, node = .reference .dereference (.ofName name)

/-- Tokens that are not blank are read as arguments. -/
theorem arguments_eq_ok {tokens : List Token} (htokens : .blank ∉ tokens) (starred : Bool) :
    ∃ nodes, arguments starred tokens = .ok nodes ∧ nodes.length = argumentCount tokens ∧
      ∀ node ∈ nodes, IsArgument node := by
  induction tokens generalizing starred with
  | nil => exact ⟨[], rfl, rfl, by simp⟩
  | cons token tokens ih =>
      rw [List.mem_cons, not_or] at htokens
      cases token with
      | blank => exact absurd rfl htokens.1
      | of kind value =>
          by_cases hstar : kind = .dereference
          · subst hstar
            obtain ⟨nodes, hnodes, hlength, hall⟩ := ih htokens.2 true
            exact ⟨nodes, hnodes, by simpa [argumentCount, isStar] using hlength, hall⟩
          · obtain ⟨nodes, hnodes, hlength, hall⟩ := ih htokens.2 false
            refine ⟨(if starred then .reference .dereference (.ofName value) else .bare value) ::
              nodes, ?_, ?_, ?_⟩
            · simp [arguments, Token.entry, hstar, hnodes, bind, Except.bind, pure, Except.pure]
            · simpa [argumentCount, isStar, hstar] using hlength
            · intro node hnode
              rcases List.mem_cons.mp hnode with rfl | hnode
              · cases starred with
                | false => exact Or.inl ⟨value, rfl⟩
                | true => exact Or.inr ⟨value, rfl⟩
              · exact hall node hnode

private theorem argumentCount_flatMap (fields : List (List Char)) :
    argumentCount (fields.flatMap Syscall.argumentTokens) = fields.length := by
  have htoken : ∀ text, isStar (Syscall.argumentToken text) = false := by
    intro text
    unfold Syscall.argumentToken
    repeat' split
    all_goals rfl
  have hfield : ∀ field, argumentCount (Syscall.argumentTokens field) = 1 := by
    intro field
    have hstar : isStar (.of .dereference (.text "*")) = true := rfl
    unfold Syscall.argumentTokens
    split <;> simp [argumentCount, htoken, hstar]
  induction fields with
  | nil => rfl
  | cons field fields ih =>
      have hfirst := hfield field
      rw [argumentCount] at hfirst ih ⊢
      rw [List.flatMap_cons, List.countP_append, hfirst, ih, List.length_cons, Nat.add_comm]

/-- Two or more tokens, none of them blank, have one before the last. -/
theorem exists_valueAt_neg_two {first second : Token} {rest : List Token}
    (htokens : .blank ∉ first :: second :: rest) :
    ∃ value, valueAt (first :: second :: rest) (-2) = .ok value := by
  have hne : first :: (second :: rest).dropLast ≠ [] := List.cons_ne_nil _ _
  have hsplit : first :: second :: rest =
      (first :: (second :: rest).dropLast).dropLast ++
        [(first :: (second :: rest).dropLast).getLast hne,
          (second :: rest).getLast (List.cons_ne_nil _ _)] := by
    rw [List.append_cons, List.dropLast_concat_getLast, List.cons_append,
      List.dropLast_concat_getLast]
  have hlast : (first :: (second :: rest).dropLast).getLast hne ≠ .blank := by
    intro hblank
    apply htokens
    rw [hsplit, hblank]
    simp
  rw [hsplit]
  cases htoken : (first :: (second :: rest).dropLast).getLast hne with
  | blank => exact absurd htoken hlast
  | of kind value => exact ⟨value, valueAt_neg_two _ kind value _⟩

/-- Without its last two tokens, a call keeps tokens of its arguments only. -/
theorem sublist_of_ending (arguments : List Token) (error : Token) {ending : List Token}
    (hending : ending = [] ∨ ending = [.symbol .semicolon]) :
    List.Sublist (arguments ++ error :: ending).dropLast.dropLast arguments := by
  rcases hending with rfl | rfl
  · rw [List.dropLast_concat]
    exact List.dropLast_sublist _
  · have hdrop : (arguments ++ [error, .symbol .semicolon]).dropLast.dropLast = arguments := by
      rw [List.append_cons, List.dropLast_concat, List.dropLast_concat]
    simp only [hdrop, List.Sublist.refl]

/-- The elements that the scan gives a system call are read, with as many arguments as there are
registers at most. -/
theorem syscall_of_elements {line : Atom} {text : List Char} {elements : List Token}
    (helements : Syscall.elements line text = .ok elements) :
    ∃ number arguments error, syscall (.keyword .syscall :: elements) =
        .ok (.syscall number (.list arguments) (.ofName error)) ∧
      arguments.length ≤ Syscall.maxArguments ∧ ∀ node ∈ arguments, IsArgument node := by
  have hblank := Token.blank_not_mem_of_all_isElement (Syscall.all_isElement_elements helements)
  obtain ⟨number, error, hnumber, hfields, herror, rfl⟩ := Syscall.elements_eq_ok helements
  obtain ⟨error, ending, hending, rfl⟩ := Syscall.errorTokens_eq_ok herror
  generalize Syscall.argumentFields text = fields at hfields hblank ⊢
  cases number with
  | blank => exact nomatch hnumber
  | of kind value =>
      have hsublist :=
        sublist_of_ending (fields.flatMap Syscall.argumentTokens) (.of .identifier error) hending
      have harguments : .blank ∉ (fields.flatMap Syscall.argumentTokens ++
          .of .identifier error :: ending).dropLast.dropLast := by
        intro hmem
        apply hblank
        exact List.mem_cons_of_mem _ (List.mem_append_left _ (hsublist.subset hmem))
      have htokens : .blank ∉ .keyword .syscall :: .of kind value ::
          (fields.flatMap Syscall.argumentTokens ++ .of .identifier error :: ending) := by
        rw [List.mem_cons, not_or]
        exact ⟨by simp [Token.keyword], hblank⟩
      obtain ⟨nodes, hnodes, hlength, hall⟩ := arguments_eq_ok harguments false
      obtain ⟨name, hname⟩ := exists_valueAt_neg_two htokens
      refine ⟨if kind = .identifier then .ofName value else .bare value, nodes, name, ?_, ?_, hall⟩
      · unfold syscall
        rw [List.cons_append, hname]
        simp only [List.drop_succ_cons, List.drop_zero, hnodes]
        rfl
      · rw [hlength]
        calc argumentCount _ ≤ argumentCount (fields.flatMap Syscall.argumentTokens) :=
              hsublist.countP_le
          _ = fields.length := argumentCount_flatMap fields
          _ ≤ Syscall.maxArguments := hfields

/-! ## Complete lines -/

theorem isOk_map {α β : Type} (f : α → β) (result : Except Fault α) :
    (result.map f).isOk = result.isOk := by
  cases result <;> rfl

private theorem symbolEffect_isOk {tokens : List Token} (hne : tokens ≠ [])
    (htokens : .blank ∉ tokens) (value : Atom) : (symbolEffect tokens value).isOk = true := by
  rw [symbolEffect, isOk_map, valueAt_neg_one, List.getLast?_eq_some_getLast hne]
  cases hlast : tokens.getLast hne with
  | blank => exact absurd (hlast ▸ List.getLast_mem hne) htokens
  | of kind value => rfl

private theorem keywordEffect_of_label {line : Atom} {tokens : List Token} {keyword : Keyword}
    (hkeyword : Opener.ofToken? (.keyword keyword) = none) :
    keywordEffect line tokens (.text keyword.label) = .ok .pass := by
  rw [Token.keyword] at hkeyword
  simp only [keywordEffect, hkeyword]
  cases keyword <;> rfl

/-- What a scanned line with a statement word holds behind the word. -/
theorem elements_of_opener? {line : TokenLine} {opener : Opener}
    (hsound : Scan.Sound line.line line.tokens) (hopener : line.opener? = some opener) :
    ∃ rest elements, opener.elements line.line rest = .ok elements ∧
      line.tokens = .keyword opener.keyword :: elements := by
  obtain ⟨first, hfirst, hword⟩ := Option.bind_eq_some_iff.mp hopener
  rw [Opener.eq_of_ofToken? hword] at hfirst
  exact hsound.opened opener hfirst

/-- What a line of a source with a statement word is made of: the text behind the word gives its
other tokens. -/
theorem statement_of_opener? {names : Names} {blocks : Blocks} {source : List SourceLine}
    {line : TokenLine} {opener : Opener} (hline : line ∈ (Lexed.scan names blocks source).lines)
    (hopener : line.opener? = some opener) :
    ∃ front rest elements, line.line.content.toList = front ++ rest ∧ Scan.SpelledBy opener front ∧
      opener.elements line.line rest = .ok elements ∧
      line.tokens = .keyword opener.keyword :: elements := by
  obtain ⟨first, hfirst, hword⟩ := Option.bind_eq_some_iff.mp hopener
  obtain ⟨scanned, hfinds, htokens⟩ := Lexed.finds_of_mem hline
  rw [htokens] at hfirst ⊢
  cases hfinds with
  | @statement other front rest elements blocks hcontent hfront helements =>
      cases hfirst
      cases (Opener.ofToken?_keyword other).symm.trans hword
      exact ⟨front, rest, elements, hcontent, hfront, helements, rfl⟩
  | other blocks hother =>
      rw [Opener.eq_of_ofToken? hword] at hfirst
      exact absurd hfirst (hother.first opener)

/-- A scanned line is read exactly if it is complete. -/
theorem effect_isOk {line : TokenLine} (hsound : Scan.Sound line.line line.tokens) :
    (Reader.effect line).isOk = line.isComplete := by
  obtain ⟨source, tokens⟩ := line
  have htokens := hsound.noBlank
  cases hopener : TokenLine.opener? ⟨source, tokens⟩ with
  | some opener =>
      rw [effect_of_opener? hopener]
      simp only [TokenLine.isComplete, hopener]
      cases opener with
      | const => exact (isOk_map _ _).trans (constant_isOk htokens)
      | var => exact (isOk_map _ _).trans (variableNode_isOk htokens)
      | ptr => exact (isOk_map _ _).trans (pointer_isOk htokens)
      | cond => exact (isOk_map _ _).trans (condition_isOk htokens)
      | syscall =>
          obtain ⟨rest, elements, helements, rfl⟩ := elements_of_opener? hsound hopener
          obtain ⟨number, arguments, error, hsyscall, -, -⟩ := syscall_of_elements helements
          rw [openerEffect, isOk_map, Opener.keyword, hsyscall]
          rfl
  | none =>
      simp only [TokenLine.isComplete, hopener]
      cases tokens with
      | nil => rfl
      | cons first rest =>
          cases first with
          | blank => exact absurd (List.mem_cons_self ..) htokens
          | of kind value =>
              cases kind with
              | symbol => exact symbolEffect_isOk (List.cons_ne_nil _ _) htokens value
              | keyword =>
                  obtain ⟨keyword, rfl⟩ := hsound.labelled value rfl
                  exact congrArg Except.isOk (keywordEffect_of_label hopener)
              | _ => rfl

end Reader

/-! ## Statements in blocks -/

namespace Layout

variable {α β : Type}

/-- Whether a line finds the conditional that it belongs to. -/
def admits (layout : Layout α) : Effect α → Bool
  | .statement _ => layout.current.isSome || !(layout.inIf || layout.inElse)
  | _ => true

/-- Whether all lines find the conditionals that they belong to. -/
def admitsAll (null : α) (layout : Layout α) : List (Effect α) → Bool
  | [] => true
  | effect :: rest => layout.admits effect && (layout.apply null effect).admitsAll null rest

private theorem admits_map (f : α → β) (layout : Layout α) (effect : Effect α) :
    (layout.map f).admits (effect.map f) = layout.admits effect := by
  cases effect <;> simp [admits, Effect.map, map]

private theorem admitsAll_map (f : α → β) (null : α) (layout : Layout α)
    (effects : List (Effect α)) :
    (layout.map f).admitsAll (f null) (effects.map (Effect.map f)) =
      layout.admitsAll null effects := by
  induction effects generalizing layout with
  | nil => rfl
  | cons effect effects ih =>
      rw [List.map_cons, admitsAll, admitsAll, admits_map, ← map_apply, ih]

end Layout

/-- Whether every statement inside a block comes after the opening of a conditional. -/
def supported (lines : List TokenLine) : Bool :=
  Layout.admitsAll () {} (lines.map TokenLine.shape)

namespace Reader

private theorem apply_isOk (reading : Reading) (effect : Effect Node) :
    (reading.apply effect).isOk = reading.layout.admits (Reading.headed effect) := by
  obtain ⟨statements, current, inIf, inElse⟩ := reading
  cases effect with
  | statement node => cases inIf <;> cases inElse <;> cases current <;> rfl
  | _ => rfl

/-- Lines whose effects are known are read exactly if each statement finds its conditional. -/
theorem foldlM_readLine_isOk {lines : List TokenLine}
    (hlines : ∀ line ∈ lines, (Reader.effect line).isOk = true) (reading : Reading) :
    (lines.foldlM readLine reading).isOk =
      reading.layout.admitsAll .absent
        (lines.map fun line => line.shape.map fun _ => headOf line) := by
  induction lines generalizing reading with
  | nil => rfl
  | cons line lines ih =>
      have hrest := ih fun other hother => hlines other (List.mem_cons_of_mem _ hother)
      cases heffect : Reader.effect line with
      | error fault =>
          have hline := hlines line (List.mem_cons_self ..)
          rw [heffect] at hline
          exact nomatch hline
      | ok effect =>
          have hadmits := apply_isOk reading effect
          have hread : readLine reading line = reading.apply effect := by
            rw [readLine_eq, heffect]
            rfl
          rw [headed_effect heffect] at hadmits
          rw [List.foldlM_cons, hread, List.map_cons, Layout.admitsAll, ← hadmits]
          cases happly : reading.apply effect with
          | error fault => rfl
          | ok reading' =>
              rw [← layout_readLine (hread.trans happly)]
              exact hrest reading'

private theorem supported_eq (lines : List TokenLine) :
    supported lines = Layout.admitsAll .absent {}
      (lines.map fun line => line.shape.map fun _ => headOf line) := by
  have hshape : ∀ line : TokenLine,
      (line.shape.map fun _ => headOf line).map (fun _ => ()) = line.shape := by
    intro line
    cases line.shape <;> rfl
  rw [← Layout.admitsAll_map fun _ => (), List.map_map]
  exact congrArg (Layout.admitsAll () {}) (List.map_congr_left fun line _ => (hshape line).symm)

/-- **Token lines are read exactly if they are complete and supported.** -/
theorem read_isOk_iff {lines : List TokenLine}
    (hsound : ∀ line ∈ lines, Scan.Sound line.line line.tokens) :
    (Reader.read lines).isOk = true ↔
      (∀ line ∈ lines, line.isComplete = true) ∧ supported lines = true := by
  rw [Reader.read, isOk_map, supported_eq]
  constructor
  · intro hread
    cases hlines : lines.foldlM readLine {} with
    | error fault =>
        rw [hlines] at hread
        exact nomatch hread
    | ok reading =>
        have heffects : ∀ line ∈ lines, (Reader.effect line).isOk = true := by
          intro line hline
          obtain ⟨effect, heffect⟩ := effect_of_foldlM_readLine hlines line hline
          rw [heffect]
          rfl
        refine ⟨fun line hline => ?_, ?_⟩
        · rw [← effect_isOk (hsound line hline)]
          exact heffects line hline
        · rwa [foldlM_readLine_isOk heffects] at hread
  · rintro ⟨hcomplete, hsupported⟩
    rw [foldlM_readLine_isOk fun line hline => ?_]
    · exact hsupported
    · rw [effect_isOk (hsound line hline)]
      exact hcomplete line hline

end Reader

end LineCompiler
