import LineCompiler.Proofs.Program.Watch

/-!
# Statements keep their order

The statements of a program come from the token lines that open with a statement word.  In
pre-order, the program holds the nodes of the lines at the positions `placed lines`, and these are
all positions of such lines, each once and in order, exactly if the lines are `regular`: every
conditional has a second block that is closed once, before any other conditional opens and before
any statement outside the blocks (`preorder_read`).

Lines that are not regular are read without a fault as well.  An `if` whose second block is missing
is lost, with all statements in it (`read_if_without_else`).
-/

namespace LineCompiler

/-! ## What the first and the last token of a line say -/

/-- The sort of the node of a statement. -/
def Opener.sort : Opener → String
  | .const => "Constant"
  | .var => "Variable"
  | .ptr => "Pointer"
  | .syscall => "Syscall"
  | .cond => "IfElse"

namespace TokenLine

/-- The statement word that a line opens with. -/
def opener? (line : TokenLine) : Option Opener :=
  line.tokens.head?.bind Opener.ofToken?

/-- Whether the last token of a line is that of the word `else`. -/
def endsWithElse (line : TokenLine) : Bool :=
  match line.tokens.getLast? with
  | some (.of _ value) => value = .text Keyword.alt.label
  | _ => false

/-- What a line without a statement does to the blocks. -/
def blockShape (line : TokenLine) : Effect Unit :=
  match line.tokens.head? with
  | some (.of .symbol value) =>
      if value = .text Symbol.closeBrace.label then
        if line.endsWithElse then .closeElse else .close
      else if line.endsWithElse then .openElse else .pass
  | _ => .pass

/-- What a line does, as its first and its last token say. -/
def shape (line : TokenLine) : Effect Unit :=
  match line.opener? with
  | some .cond => .conditional ()
  | some _ => .statement ()
  | none => line.blockShape

theorem content?_shape (line : TokenLine) :
    line.shape.content? = line.opener?.map fun _ => () := by
  unfold shape
  cases line.opener? with
  | some opener => cases opener <;> rfl
  | none =>
      show line.blockShape.content? = none
      unfold blockShape
      repeat' split
      all_goals rfl

end TokenLine

namespace Reader

open Token (entryAt valueAt tokenAt)

theorem valueAt_neg_one (tokens : List Token) :
    valueAt tokens (-1) =
      match tokens.getLast? with
      | some (.of _ value) => .ok value
      | _ => .error .missingItem := by
  have hitem : Text.itemAt? tokens (-1) = tokens.getLast? := by
    cases tokens with
    | nil => rfl
    | cons first rest =>
        rw [Text.itemAt?, if_pos (by decide), List.length_cons, if_neg (by omega),
          List.getLast?_eq_getElem?, List.length_cons]
        congr 1
        omega
  rw [valueAt, entryAt, tokenAt, hitem]
  cases tokens.getLast? with
  | none => rfl
  | some token => cases token <;> rfl

private theorem operation_ne_ok (tokens : List Token) (node : Node) :
    operation tokens ≠ .ok node := by
  unfold operation
  cases valueAt tokens 1 <;> cases valueAt tokens 2 <;> cases valueAt tokens 4 <;>
    exact fun hok => nomatch hok

private theorem map_symbolEffect {line : TokenLine} {value : Atom} {effect : Effect Node}
    (hfirst : line.tokens.head? = some (.of .symbol value))
    (heffect : symbolEffect line.tokens value = .ok effect) :
    effect.map (fun _ => ()) = line.blockShape := by
  obtain ⟨last, hlast, rfl⟩ := exists_of_map_eq_ok heffect
  rw [valueAt_neg_one] at hlast
  split at hlast
  · rename_i hkind
    cases hlast
    simp only [TokenLine.blockShape, hfirst, TokenLine.endsWithElse, hkind, decide_eq_true_eq]
    repeat' split
    all_goals rfl
  · exact nomatch hlast

theorem map_openerEffect {opener : Opener} {line : Atom} {tokens : List Token}
    {effect : Effect Node} (heffect : openerEffect opener line tokens = .ok effect) :
    effect.map (fun _ => ()) = if opener = .cond then .conditional () else .statement () := by
  cases opener <;>
    · obtain ⟨node, -, rfl⟩ := exists_of_map_eq_ok heffect
      rfl

/-- The effect of a line is the one that its first and its last token say. -/
theorem map_effect {line : TokenLine} {effect : Effect Node}
    (heffect : Reader.effect line = .ok effect) : effect.map (fun _ => ()) = line.shape := by
  obtain ⟨line, tokens⟩ := line
  cases tokens with
  | nil =>
      cases heffect
      rfl
  | cons first rest =>
      cases first with
      | blank => exact nomatch heffect
      | of kind value =>
          have hother : kind ≠ .keyword → Opener.ofToken? (.of kind value) = none := by
            intro hkind
            apply Opener.ofToken?_eq_none
            intro opener heq
            injection heq with heq
            exact hkind heq
          cases kind with
          | symbol =>
              rw [TokenLine.shape, TokenLine.opener?]
              simp only [List.head?_cons, Option.bind_some, hother (by simp)]
              exact map_symbolEffect rfl heffect
          | keyword =>
              have hkeyword : keywordEffect line.number (.of .keyword value :: rest) value =
                  .ok effect := heffect
              rw [TokenLine.shape, TokenLine.opener?]
              simp only [List.head?_cons, Option.bind_some]
              unfold keywordEffect at hkeyword
              split at hkeyword
              · rename_i opener hopener
                rw [hopener, map_openerEffect hkeyword]
                cases opener <;> rfl
              · rename_i hopener
                rw [hopener]
                split at hkeyword
                · -- An operation is never read.
                  obtain ⟨node, hnode, -⟩ := exists_of_map_eq_ok hkeyword
                  exact absurd hnode (operation_ne_ok _ node)
                · cases hkeyword
                  rfl
          | _ =>
              cases heffect
              rw [TokenLine.shape, TokenLine.opener?]
              simp only [List.head?_cons, Option.bind_some, hother (by simp)]
              rfl

/-! ## The nodes of lines -/

theorem constant_eq_ok {line : Atom} {tokens : List Token} {node : Node}
    (hnode : constant line tokens = .ok node) :
    ∃ name size type value, valueAt tokens 1 = .ok name ∧ node =
      .constant (.ofName name) (.ofLiteral .number size) (.ofType type)
        (.ofLiteral type.literal value) line := by
  obtain ⟨name, hname, hnode⟩ := exists_of_bind_eq_ok hnode
  obtain ⟨size, -, hnode⟩ := exists_of_bind_eq_ok hnode
  obtain ⟨type, -, hnode⟩ := exists_of_bind_eq_ok hnode
  obtain ⟨value, -, hnode⟩ := exists_of_bind_eq_ok hnode
  obtain ⟨typeName, -, hnode⟩ := exists_of_bind_eq_ok hnode
  cases hnode
  exact ⟨_, _, _, _, hname, rfl⟩

theorem variableNode_eq_ok {line : Atom} {tokens : List Token} {node : Node}
    (hnode : variableNode line tokens = .ok node) :
    ∃ name size type, valueAt tokens 1 = .ok name ∧ node =
      .variable (.ofName name) (.ofLiteral .number size) (.ofType type) .absent line := by
  obtain ⟨name, hname, hnode⟩ := exists_of_bind_eq_ok hnode
  obtain ⟨size, -, hnode⟩ := exists_of_bind_eq_ok hnode
  obtain ⟨type, -, hnode⟩ := exists_of_bind_eq_ok hnode
  obtain ⟨last, -, hnode⟩ := exists_of_bind_eq_ok hnode
  obtain ⟨typeName, -, hnode⟩ := exists_of_bind_eq_ok hnode
  cases hnode
  exact ⟨_, _, _, hname, rfl⟩

theorem pointer_eq_ok {line : Atom} {tokens : List Token} {node : Node}
    (hnode : pointer line tokens = .ok node) :
    ∃ name type value, valueAt tokens 1 = .ok name ∧ node =
      .pointer (.ofName name) (.ofType type) (.address (.bare value)) line := by
  obtain ⟨name, hname, hnode⟩ := exists_of_bind_eq_ok hnode
  obtain ⟨type, -, hnode⟩ := exists_of_bind_eq_ok hnode
  obtain ⟨value, -, hnode⟩ := exists_of_bind_eq_ok hnode
  obtain ⟨typeName, -, hnode⟩ := exists_of_bind_eq_ok hnode
  cases hnode
  exact ⟨_, _, _, hname, rfl⟩

private theorem syscall_eq_ok {tokens : List Token} {node : Node}
    (hnode : syscall tokens = .ok node) :
    ∃ number arguments error,
      Reader.arguments false ((tokens.drop 2).dropLast.dropLast) = .ok arguments ∧
        node = .syscall number (.list arguments) (.ofName error) := by
  obtain ⟨number, -, hnode⟩ := exists_of_bind_eq_ok hnode
  obtain ⟨error, -, hnode⟩ := exists_of_bind_eq_ok hnode
  obtain ⟨arguments, harguments, hnode⟩ := exists_of_bind_eq_ok hnode
  cases hnode
  exact ⟨_, _, _, harguments, rfl⟩

/-- The node of a statement line is single and of the sort that its word says. -/
theorem statement_of_openerEffect {opener : Opener} {line : Atom} {tokens : List Token}
    {node : Node} (heffect : openerEffect opener line tokens = .ok (.statement node)) :
    node.sort = opener.sort ∧ node.IsSingle := by
  cases opener with
  | const =>
      obtain ⟨found, hfound, heq⟩ := exists_of_map_eq_ok heffect
      obtain ⟨name, size, type, value, -, rfl⟩ := constant_eq_ok hfound
      cases heq
      exact ⟨rfl, rfl⟩
  | var =>
      obtain ⟨found, hfound, heq⟩ := exists_of_map_eq_ok heffect
      obtain ⟨name, size, type, -, rfl⟩ := variableNode_eq_ok hfound
      cases heq
      exact ⟨rfl, rfl⟩
  | ptr =>
      obtain ⟨found, hfound, heq⟩ := exists_of_map_eq_ok heffect
      obtain ⟨name, type, value, -, rfl⟩ := pointer_eq_ok hfound
      cases heq
      exact ⟨rfl, rfl⟩
  | syscall =>
      obtain ⟨found, hfound, heq⟩ := exists_of_map_eq_ok heffect
      obtain ⟨number, arguments, error, -, rfl⟩ := syscall_eq_ok hfound
      cases heq
      exact ⟨rfl, rfl⟩
  | cond =>
      obtain ⟨found, -, heq⟩ := exists_of_map_eq_ok heffect
      exact nomatch heq

theorem effect_of_opener? {line : TokenLine} {opener : Opener}
    (hopener : line.opener? = some opener) :
    Reader.effect line = openerEffect opener line.line.number line.tokens := by
  obtain ⟨line, tokens⟩ := line
  cases tokens with
  | nil => exact nomatch hopener
  | cons first rest =>
      rw [Opener.eq_of_ofToken? hopener]
      exact effect_opener opener line rest

theorem opener?_of_effect {line : TokenLine} {effect : Effect Node} {node : Node}
    (heffect : Reader.effect line = .ok effect) (hcontent : effect.content? = some node) :
    ∃ opener, line.opener? = some opener := by
  have hshape := line.content?_shape
  rw [← map_effect heffect] at hshape
  cases hopener : line.opener? with
  | some opener => exact ⟨opener, rfl⟩
  | none =>
      rw [hopener] at hshape
      cases effect with
      | statement | conditional => exact nomatch hshape
      | _ => exact nomatch hcontent

theorem isSingle_of_effect {line : TokenLine} {node : Node}
    (heffect : Reader.effect line = .ok (.statement node)) : node.IsSingle := by
  obtain ⟨opener, hopener⟩ := opener?_of_effect heffect rfl
  rw [effect_of_opener? hopener] at heffect
  exact (statement_of_openerEffect heffect).2

theorem opener?_of_conditional {line : TokenLine} {test : Node}
    (heffect : Reader.effect line = .ok (.conditional test)) : line.opener? = some .cond := by
  obtain ⟨opener, hopener⟩ := opener?_of_effect heffect rfl
  rw [effect_of_opener? hopener] at heffect
  have hshape := map_openerEffect heffect
  by_cases hcond : opener = .cond
  · rw [hopener, hcond]
  · rw [if_neg hcond] at hshape
    exact nomatch hshape

/-- The node of a statement line is not a conditional. -/
theorem sort_of_effect {line : TokenLine} {node : Node}
    (heffect : Reader.effect line = .ok (.statement node)) : node.sort ≠ Opener.cond.sort := by
  obtain ⟨opener, hopener⟩ := opener?_of_effect heffect rfl
  rw [effect_of_opener? hopener] at heffect
  rw [(statement_of_openerEffect heffect).1]
  have hshape := map_openerEffect heffect
  cases opener with
  | cond => exact nomatch hshape
  | _ => decide

/-- The node that a line gives, a conditional without its blocks. -/
def headOf (line : TokenLine) : Node :=
  match Reader.effect line with
  | .ok effect => (Reading.headed effect).content?.getD .absent
  | .error _ => .absent

theorem headed_effect {line : TokenLine} {effect : Effect Node}
    (heffect : Reader.effect line = .ok effect) :
    Reading.headed effect = line.shape.map fun _ => headOf line := by
  rw [← map_effect heffect, headOf, heffect]
  cases effect <;> rfl

/-- Only a line that opens a conditional gives one. -/
theorem effect_of_headOf {line : TokenLine} {test : Node} (hhead : headOf line = Node.head test) :
    Reader.effect line = .ok (.conditional test) := by
  unfold headOf at hhead
  cases heffect : Reader.effect line with
  | error fault =>
      rw [heffect] at hhead
      exact nomatch hhead
  | ok effect =>
      rw [heffect] at hhead
      cases effect with
      | conditional other =>
          cases hhead
          rfl
      | statement node =>
          have hnode : node = Node.head test := hhead
          exact absurd (congrArg Node.sort hnode) (sort_of_effect heffect)
      | _ => exact nomatch hhead

/-- Any other node of a line is its statement. -/
theorem statement_of_headOf {line : TokenLine} {node : Node} (hnode : node ≠ .absent)
    (hsort : node.sort ≠ Opener.cond.sort) (hhead : headOf line = node) :
    Reader.effect line = .ok (.statement node) := by
  unfold headOf at hhead
  cases heffect : Reader.effect line with
  | error fault =>
      rw [heffect] at hhead
      exact absurd hhead.symm hnode
  | ok effect =>
      rw [heffect] at hhead
      cases effect with
      | statement other =>
          cases hhead
          rfl
      | conditional test => exact absurd (congrArg Node.sort hhead.symm) hsort
      | _ => exact absurd hhead.symm hnode

private theorem sort_headOf {line : TokenLine} {effect : Effect Node} {opener : Opener}
    (heffect : Reader.effect line = .ok effect) (hopener : line.opener? = some opener) :
    (headOf line).sort = opener.sort := by
  rw [headOf, heffect]
  rw [effect_of_opener? hopener] at heffect
  by_cases hcond : opener = .cond
  · subst hcond
    obtain ⟨condition, -, rfl⟩ := exists_of_map_eq_ok heffect
    rfl
  · have hshape := map_openerEffect heffect
    rw [if_neg hcond] at hshape
    cases effect with
    | statement node => exact (statement_of_openerEffect heffect).1
    | _ => exact nomatch hshape

/-! ## Reading as a run over a layout -/

theorem layout_readLine {reading reading' : Reading} {line : TokenLine}
    (hread : readLine reading line = .ok reading') :
    reading'.layout =
      reading.layout.apply .absent (line.shape.map fun _ => headOf line) := by
  rw [readLine_eq] at hread
  obtain ⟨effect, heffect, happly⟩ := exists_of_bind_eq_ok hread
  rw [← headed_effect heffect]
  refine Reading.layout_apply ?_ happly
  rintro node rfl
  exact isSingle_of_effect heffect

/-- What holds at the start and is kept by the effect of each line holds at the end. -/
theorem foldlM_readLine_induction {motive : Reading → Prop} {lines : List TokenLine}
    {reading reading' : Reading} (hread : lines.foldlM readLine reading = .ok reading')
    (hstart : motive reading)
    (hstep : ∀ line ∈ lines, ∀ effect before after, Reader.effect line = .ok effect →
      before.apply effect = .ok after → motive before → motive after) :
    motive reading' := by
  induction lines generalizing reading with
  | nil =>
      cases hread
      exact hstart
  | cons line lines ih =>
      rw [List.foldlM_cons] at hread
      obtain ⟨middle, hline, hrest⟩ := exists_of_bind_eq_ok hread
      rw [readLine_eq] at hline
      obtain ⟨effect, heffect, happly⟩ := exists_of_bind_eq_ok hline
      have hmiddle := hstep line (List.mem_cons_self ..) effect reading middle heffect happly hstart
      exact ih hrest hmiddle fun other hother => hstep other (List.mem_cons_of_mem _ hother)

private theorem layout_foldlM_readLine {lines : List TokenLine} {reading reading' : Reading}
    (hread : lines.foldlM readLine reading = .ok reading') :
    reading'.layout =
      reading.layout.run .absent (lines.map fun line => line.shape.map fun _ => headOf line) := by
  induction lines generalizing reading with
  | nil =>
      cases hread
      rfl
  | cons line lines ih =>
      rw [List.foldlM_cons] at hread
      obtain ⟨middle, hline, hrest⟩ := exists_of_bind_eq_ok hread
      rw [ih hrest, layout_readLine hline]
      rfl

theorem effect_of_foldlM_readLine {lines : List TokenLine} {reading reading' : Reading}
    (hread : lines.foldlM readLine reading = .ok reading') :
    ∀ line ∈ lines, ∃ effect, Reader.effect line = .ok effect := by
  induction lines generalizing reading with
  | nil =>
      intro line hline
      exact absurd hline List.not_mem_nil
  | cons first lines ih =>
      rw [List.foldlM_cons] at hread
      obtain ⟨middle, hfirst, hrest⟩ := exists_of_bind_eq_ok hread
      intro line hline
      rcases List.mem_cons.mp hline with rfl | hline
      · rw [readLine_eq] at hfirst
        obtain ⟨effect, heffect, -⟩ := exists_of_bind_eq_ok hfirst
        exact ⟨effect, heffect⟩
      · exact ih hrest line hline

theorem effect_of_read {lines : List TokenLine} {statements : List Node}
    (hread : Reader.read lines = .ok statements) :
    ∀ line ∈ lines, ∃ effect, Reader.effect line = .ok effect := by
  obtain ⟨reading, hreading, -⟩ := exists_of_map_eq_ok hread
  exact effect_of_foldlM_readLine hreading

end Reader

/-! ## Positions -/

open Reader

/-- Effects that say at which position their line stands. -/
def Effect.numbered (number : Nat) : List (Effect Unit) → List (Effect (Option Nat))
  | [] => []
  | effect :: rest => effect.map (fun _ => some number) :: Effect.numbered (number + 1) rest

/-- The positions of the lines that open with a statement word. -/
def positionsFrom (number : Nat) : List TokenLine → List Nat
  | [] => []
  | line :: rest =>
      (line.opener?.map fun _ => number).toList ++ positionsFrom (number + 1) rest

/-- The positions of the lines that open with a statement word, in order. -/
def positions (lines : List TokenLine) : List Nat :=
  positionsFrom 0 lines

/-- The positions of the lines whose nodes a program holds, in pre-order; nothing stands for a
conditional that was never opened. -/
def placed (lines : List TokenLine) : List (Option Nat) :=
  (Layout.run none {} (Effect.numbered 0 (lines.map TokenLine.shape))).settled none

/-- The node of the line at a position. -/
def headAt (lines : List TokenLine) (position : Option Nat) : Node :=
  match position.bind (lines[·]?) with
  | some line => headOf line
  | none => .absent

/-- Whether every conditional is complete before anything else follows. -/
def regular (lines : List TokenLine) : Bool :=
  Watch.accepts {} (lines.map TokenLine.shape)

private theorem map_numbered {all lines : List TokenLine} {number : Nat}
    (hlines : ∀ index, all[number + index]? = lines[index]?) :
    (Effect.numbered number (lines.map TokenLine.shape)).map (Effect.map (headAt all)) =
      lines.map fun line => line.shape.map fun _ => headOf line := by
  induction lines generalizing number with
  | nil => rfl
  | cons line lines ih =>
      have hhead : headAt all (some number) = headOf line := by
        have hfound : all[number]? = some line := by simpa using hlines 0
        simp only [headAt, Option.bind_some, hfound]
      have htail : ∀ index, all[number + 1 + index]? = lines[index]? := by
        intro index
        have hnext := hlines (index + 1)
        rwa [List.getElem?_cons_succ, ← Nat.add_assoc, Nat.add_right_comm] at hnext
      rw [List.map_cons, Effect.numbered, List.map_cons, List.map_cons, ih htail]
      congr 1
      cases line.shape <;> simp [Effect.map, hhead]

private theorem content?_numbered (number : Nat) (lines : List TokenLine) :
    (Effect.numbered number (lines.map TokenLine.shape)).filterMap Effect.content? =
      (positionsFrom number lines).map some := by
  induction lines generalizing number with
  | nil => rfl
  | cons line lines ih =>
      have hcontent : (line.shape.map fun _ => some number).content? =
          line.opener?.map fun _ => some number := by
        have hshape := line.content?_shape
        cases hopener : line.opener? with
        | none =>
            rw [hopener] at hshape
            revert hshape
            cases line.shape <;> simp [Effect.map, Effect.content?]
        | some opener =>
            rw [hopener] at hshape
            revert hshape
            cases line.shape <;> simp [Effect.map, Effect.content?]
      rw [List.map_cons, Effect.numbered, positionsFrom, List.map_append, ← ih]
      cases hopener : line.opener? <;> simp [hopener, hcontent]

private theorem le_of_mem_positionsFrom {number position : Nat} {lines : List TokenLine}
    (hposition : position ∈ positionsFrom number lines) : number ≤ position := by
  induction lines generalizing number with
  | nil => exact absurd hposition List.not_mem_nil
  | cons line lines ih =>
      rcases List.mem_append.mp hposition with hhere | hlater
      · cases hopener : line.opener? with
        | none => simp [hopener] at hhere
        | some opener =>
            have : position = number := by simpa [hopener] using hhere
            omega
      · have := ih hlater
        omega

private theorem nodup_positionsFrom (number : Nat) (lines : List TokenLine) :
    (positionsFrom number lines).Nodup := by
  induction lines generalizing number with
  | nil => exact List.nodup_nil
  | cons line lines ih =>
      rw [positionsFrom]
      cases line.opener? with
      | none => exact ih (number + 1)
      | some opener =>
          refine List.nodup_cons.mpr ⟨?_, ih (number + 1)⟩
          intro hlater
          exact absurd (le_of_mem_positionsFrom hlater) (Nat.not_succ_le_self number)

private theorem accepts_numbered (watch : Watch) (number : Nat) (effects : List (Effect Unit)) :
    watch.accepts (Effect.numbered number effects) = watch.accepts effects := by
  induction effects generalizing watch number with
  | nil => rfl
  | cons effect effects ih =>
      have hstep : watch.step (effect.map fun _ => some number) = watch.step effect := by
        cases effect <;> rfl
      rw [Effect.numbered, Watch.accepts, Watch.accepts, hstep]
      cases watch.step effect with
      | none => rfl
      | some watch => exact ih watch (number + 1)

/-! ## The order of statements -/

/-- A program holds the nodes of the lines that are placed. -/
theorem preorderAll_of_read {lines : List TokenLine} {statements : List Node}
    (hread : Reader.read lines = .ok statements) :
    Node.preorderAll statements = (placed lines).map (headAt lines) := by
  obtain ⟨reading, hreading, rfl⟩ := exists_of_map_eq_ok hread
  have hnumbered : (Effect.numbered 0 (lines.map TokenLine.shape)).map
      (Effect.map (headAt lines)) = lines.map fun line => line.shape.map fun _ => headOf line :=
    map_numbered fun index => by rw [Nat.zero_add]
  rw [Reading.preorderAll_settled, layout_foldlM_readLine hreading, ← hnumbered, placed,
    ← Layout.settled_map, Layout.map_run]
  rfl

/-- The statements of a program without blocks are those of the lines that are placed. -/
theorem statement_mem_iff {lines : List TokenLine} {statements : List Node} {node : Node}
    (hread : Reader.read lines = .ok statements) (hnode : node ≠ .absent)
    (hsort : node.sort ≠ Opener.cond.sort) :
    node ∈ Node.preorderAll statements ↔
      ∃ position ∈ placed lines, ∃ line, position.bind (lines[·]?) = some line ∧
        Reader.effect line = .ok (.statement node) := by
  rw [preorderAll_of_read hread, List.mem_map]
  constructor
  · rintro ⟨position, hposition, hhead⟩
    unfold headAt at hhead
    split at hhead
    · rename_i line hline
      exact ⟨position, hposition, line, hline, statement_of_headOf hnode hsort hhead⟩
    · exact absurd hhead.symm hnode
  · rintro ⟨position, hposition, line, hline, heffect⟩
    refine ⟨position, hposition, ?_⟩
    simp only [headAt, hline, headOf, heffect]
    rfl

/-- All lines with a statement word are placed, each once and in order, exactly if the lines are
regular. -/
theorem placed_eq_positions_iff (lines : List TokenLine) :
    placed lines = (positions lines).map some ↔ regular lines = true := by
  have hcontents := content?_numbered 0 lines
  have hnull : none ∉ [] ++ (positionsFrom 0 lines).map some := by simp
  have hnodup : ([] ++ (positionsFrom 0 lines).map some).Nodup :=
    List.Pairwise.map some (fun _ _ hne heq => hne (Option.some.inj heq))
      (nodup_positionsFrom 0 lines)
  rw [← hcontents] at hnull hnodup
  have htracks : Tracks false [] {} ({} : Layout (Option Nat)) := .none
  have hplaced := Layout.settled_run_eq_iff htracks hnull hnodup
  rw [hcontents, accepts_numbered] at hplaced
  exact hplaced

/-- **Statements keep their order exactly on regular lines.**  Whatever token lines are read, the
program holds in pre-order the nodes of the lines that are `placed`; the node of each line is of the
sort that the line's word says; and the lines that are placed are all those with a statement word,
each once and in order, if and only if the lines are regular. -/
theorem preorder_read {lines : List TokenLine} {statements : List Node}
    (hread : Reader.read lines = .ok statements) :
    Node.preorderAll statements = (placed lines).map (headAt lines) ∧
      (∀ line ∈ lines, ∀ opener, line.opener? = some opener →
        (headOf line).sort = opener.sort) ∧
      (placed lines = (positions lines).map some ↔ regular lines = true) := by
  refine ⟨preorderAll_of_read hread, ?_, placed_eq_positions_iff lines⟩
  intro line hline opener hopener
  obtain ⟨effect, heffect⟩ := effect_of_read hread line hline
  exact sort_headOf heffect hopener

/-- An `if` without a second block is read without a fault, and nothing of it is left. -/
theorem read_if_without_else :
    (lex {} ["if (a == b) \x7b\n", "\x7d\n"]).fault = none ∧
      positions (lex {} ["if (a == b) \x7b\n", "\x7d\n"]).lines = [0] ∧
      Reader.read (lex {} ["if (a == b) \x7b\n", "\x7d\n"]).lines = .ok [] :=
  ⟨rfl, rfl, rfl⟩

/-- A conditional with a statement in each block, between two statements. -/
def conditionalLines : List TokenLine :=
  (lex {} ["var a: int;\n", "if (a >= 10) \x7b\n", "var b: int;\n", "\x7d else \x7b\n",
    "var c: int;\n", "\x7d\n", "var d: int;\n"]).lines

theorem preorder_read_conditionalLines :
    ∃ statements, Reader.read conditionalLines = .ok statements ∧
      Node.preorderAll statements =
        [some 0, some 1, some 2, some 4, some 6].map (headAt conditionalLines) := by
  have hok : (Reader.read conditionalLines).isOk = true := by decide +kernel
  have hregular : regular conditionalLines = true := by decide +kernel
  have hpositions : positions conditionalLines = [0, 1, 2, 4, 6] := by decide +kernel
  cases hread : Reader.read conditionalLines with
  | error fault =>
      rw [hread] at hok
      exact nomatch hok
  | ok statements =>
      obtain ⟨hpreorder, -, hplaced⟩ := preorder_read hread
      rw [hplaced.mpr hregular, hpositions] at hpreorder
      exact ⟨statements, rfl, hpreorder⟩

end LineCompiler
