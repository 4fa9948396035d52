import LineCompiler.Proofs.Program.Acceptance
import LineCompiler.Proofs.Token.Edge

/-!
# Lines without a statement

What a line without a statement does to the blocks is told by two questions: whether it closes a
block, and whether it opens the second one.  So two such lines have the same effect if and only if
both questions have the same answers (`effect_eq_iff`).  A program depends on the effects of its
lines only (`read_congr`), and of the last line only on whether it closes a block
(`read_append_congr`).
-/

namespace LineCompiler

namespace TokenLine

/-- Whether a line opens the second block of a conditional. -/
def opensSecond (line : TokenLine) : Bool :=
  match line.shape with
  | .closeElse | .openElse => true
  | _ => false

/-- Whether a line closes a block. -/
def closesBlock (line : TokenLine) : Bool :=
  match line.shape with
  | .close | .closeElse => true
  | _ => false

variable {line other : TokenLine}

theorem opener?_of_unopened (hline : Scan.Unopened line.tokens) : line.opener? = none := by
  unfold opener?
  cases hhead : line.tokens.head? with
  | none => rfl
  | some token =>
      apply Opener.ofToken?_eq_none
      rintro opener rfl
      exact hline.first opener hhead

private theorem endsWithElse_eq (line : TokenLine) :
    line.endsWithElse = line.tokens.getLast?.any Token.saysElse := by
  unfold endsWithElse
  cases line.tokens.getLast? with
  | none => rfl
  | some token => cases token <;> rfl

theorem shape_of_unopened (hline : Scan.Unopened line.tokens) : line.shape = line.blockShape := by
  rw [shape, opener?_of_unopened hline]

theorem blockShape_of_symbol {value : Atom} (hhead : line.tokens.head? = some (.of .symbol value)) :
    line.blockShape =
      if value = .text Symbol.closeBrace.label then
        if line.endsWithElse then .closeElse else .close
      else if line.endsWithElse then .openElse else .pass := by
  rw [blockShape, hhead]

theorem blockShape_of_other (hhead : ¬ ∃ value, line.tokens.head? = some (.of .symbol value)) :
    line.blockShape = .pass := by
  unfold blockShape
  split
  · rename_i value hvalue
    exact absurd ⟨value, hvalue⟩ hhead
  · rfl

theorem closesBlock_iff (hline : Scan.Unopened line.tokens) :
    line.closesBlock = true ↔ Scan.ClosesBlock line.tokens := by
  rw [closesBlock, shape_of_unopened hline, Scan.ClosesBlock]
  by_cases hsymbol : ∃ value, line.tokens.head? = some (.of .symbol value)
  · obtain ⟨value, hhead⟩ := hsymbol
    rw [blockShape_of_symbol hhead, hhead]
    by_cases hvalue : value = .text Symbol.closeBrace.label <;> cases line.endsWithElse <;>
      simp [hvalue, Token.symbol]
  · rw [blockShape_of_other hsymbol]
    refine ⟨fun hfalse => absurd hfalse (by decide), fun hcloses => absurd ⟨_, hcloses⟩ hsymbol⟩

theorem opensSecond_iff (hline : Scan.Unopened line.tokens) :
    line.opensSecond = true ↔ Scan.OpensSecond line.tokens := by
  rw [opensSecond, shape_of_unopened hline, Scan.OpensSecond, ← endsWithElse_eq]
  by_cases hsymbol : ∃ value, line.tokens.head? = some (.of .symbol value)
  · obtain ⟨value, hhead⟩ := hsymbol
    rw [blockShape_of_symbol hhead]
    by_cases hvalue : value = .text Symbol.closeBrace.label <;> cases line.endsWithElse <;>
      simp [hvalue, hhead]
  · rw [blockShape_of_other hsymbol]
    refine ⟨fun hfalse => absurd hfalse (by decide), fun hopens => absurd hopens.1 hsymbol⟩

/-- The two questions tell what a line without a statement does. -/
theorem shape_eq_iff (hline : line.opener? = none) (hother : other.opener? = none) :
    other.shape = line.shape ↔
      other.opensSecond = line.opensSecond ∧ other.closesBlock = line.closesBlock := by
  have hcontent := line.content?_shape
  have hotherContent := other.content?_shape
  rw [hline] at hcontent
  rw [hother] at hotherContent
  unfold opensSecond closesBlock
  cases hshape : line.shape with
  | statement | conditional =>
      rw [hshape] at hcontent
      cases hcontent
  | pass | close | closeElse | openElse =>
      cases hotherShape : other.shape with
      | statement | conditional =>
          rw [hotherShape] at hotherContent
          cases hotherContent
      | pass | close | closeElse | openElse => simp

end TokenLine

namespace Reader

variable {line other : TokenLine}

/-- The effect of a line depends on its number and its tokens only. -/
theorem effect_congr (hnumber : other.line.number = line.line.number)
    (htokens : other.tokens = line.tokens) :
    effect other = effect line := by
  simp only [effect, hnumber, htokens]

/-- A line without a statement has the effect that its tokens show. -/
theorem effect_of_unopened (hline : Scan.Unopened line.tokens) :
    effect line = .ok (line.shape.map fun _ => .absent) := by
  have hnone := TokenLine.opener?_of_unopened hline
  have hok : (effect line).isOk = line.isComplete := effect_isOk hline.sound
  have hcontent := line.content?_shape
  rw [hnone] at hcontent
  simp only [TokenLine.isComplete, hnone] at hok
  cases heffect : effect line with
  | error fault =>
      rw [heffect] at hok
      cases hok
  | ok found =>
      have hshape := map_effect heffect
      rw [← hshape] at hcontent ⊢
      cases found with
      | statement | conditional => cases hcontent
      | pass | close | closeElse | openElse => rfl

/-- **When two lines without a statement have the same effect.** -/
theorem effect_eq_iff (hline : Scan.Unopened line.tokens) (hother : Scan.Unopened other.tokens) :
    effect other = effect line ↔
      (Scan.OpensSecond other.tokens ↔ Scan.OpensSecond line.tokens) ∧
        (Scan.ClosesBlock other.tokens ↔ Scan.ClosesBlock line.tokens) := by
  have hmap : ∀ shape : Effect Unit,
      (shape.map fun _ => Node.absent).map (fun _ => ()) = shape := by
    intro shape
    cases shape <;> rfl
  rw [effect_of_unopened hline, effect_of_unopened hother, ← TokenLine.opensSecond_iff hline,
    ← TokenLine.opensSecond_iff hother, ← TokenLine.closesBlock_iff hline,
    ← TokenLine.closesBlock_iff hother,
    ← Bool.eq_iff_iff, ← Bool.eq_iff_iff,
    ← TokenLine.shape_eq_iff (TokenLine.opener?_of_unopened hline)
      (TokenLine.opener?_of_unopened hother)]
  constructor
  · intro heffect
    have hshape := congrArg (Effect.map fun _ => ()) (Except.ok.inj heffect)
    rwa [hmap, hmap] at hshape
  · intro hshape
    rw [hshape]

/-! ## Programs -/

theorem foldlM_readLine_congr {lines others : List TokenLine}
    (heffects : others.map effect = lines.map effect) (reading : Reading) :
    others.foldlM readLine reading = lines.foldlM readLine reading := by
  induction lines generalizing others reading with
  | nil => rw [List.map_eq_nil_iff.mp heffects]
  | cons line rest ih =>
      obtain ⟨other, otherRest, rfl, hother, hrest⟩ := List.map_eq_cons_iff.mp heffects
      rw [List.foldlM_cons, List.foldlM_cons, readLine_eq, readLine_eq, hother]
      exact congrArg _ (funext fun after => ih hrest after)

/-- **A program depends on the effects of its lines only.** -/
theorem read_congr {lines others : List TokenLine}
    (heffects : others.map effect = lines.map effect) :
    read others = read lines := by
  rw [read, read, foldlM_readLine_congr heffects]

/-- The last line is read from what the other lines come to. -/
theorem read_concat (lines : List TokenLine) (line : TokenLine) :
    read (lines ++ [line]) =
      lines.foldlM readLine {} >>= fun reading => (readLine reading line).map Reading.settled := by
  rw [read, List.foldlM_append]
  cases lines.foldlM readLine {} with
  | error fault => rfl
  | ok reading =>
      show ([line].foldlM readLine reading).map Reading.settled =
        (readLine reading line).map Reading.settled
      rw [List.foldlM_cons]
      cases readLine reading line <;> rfl

/-- A reading that ends with a line without a statement: only whether the line closes a block
counts. -/
theorem settled_readLine (reading : Reading) (hline : Scan.Unopened line.tokens) :
    (readLine reading line).map Reading.settled =
      .ok (if line.closesBlock then reading.closeBlock else reading).settled := by
  have hnone := line.content?_shape
  rw [TokenLine.opener?_of_unopened hline] at hnone
  rw [readLine_eq, effect_of_unopened hline, TokenLine.closesBlock]
  cases hshape : line.shape with
  | statement | conditional =>
      rw [hshape] at hnone
      cases hnone
  | pass | close | closeElse | openElse => rfl

/-- **What the last line does to the second block has no part in the program.** -/
theorem read_append_congr {lines others : List TokenLine}
    (heffects : others.map effect = lines.map effect) (hline : Scan.Unopened line.tokens)
    (hother : Scan.Unopened other.tokens)
    (hcloses : Scan.ClosesBlock other.tokens ↔ Scan.ClosesBlock line.tokens) :
    read (others ++ [other]) = read (lines ++ [line]) := by
  rw [← TokenLine.closesBlock_iff hline, ← TokenLine.closesBlock_iff hother, ← Bool.eq_iff_iff]
    at hcloses
  rw [read_concat, read_concat, foldlM_readLine_congr heffects]
  cases lines.foldlM readLine {} with
  | error fault => rfl
  | ok reading =>
      show (readLine reading other).map Reading.settled =
        (readLine reading line).map Reading.settled
      rw [settled_readLine reading hother, settled_readLine reading hline, hcloses]

end Reader

end LineCompiler
