import LineCompiler.Proofs.Program.Layout

/-!
# When every statement keeps its place

A conditional takes its place when its second block is closed, and only then.  A watch follows the
lines and knows of the last conditional whether it is still without a place (`pending`), has a place
at the end (`last`), or has a place with later statements behind it (`covered`).  It stops where a
statement gets out of order, is lost, or is put twice.

The main result is `Layout.settled_run_eq_iff`: a layout holds everything in order if and only if
the watch does not stop and no conditional is left pending.  From left to right it uses that later
lines cannot repair a layout: of what has been read before, they only ever append the conditional
under construction (`Layout.filter_settled_run`).
-/

namespace LineCompiler

/-- What has become of the last conditional. -/
inductive Standing where
  | none | pending | last | covered
  deriving DecidableEq

/-- The blocks that are open, and what has become of the last conditional. -/
structure Watch where
  inIf : Bool := false
  inElse : Bool := false
  standing : Standing := .none
  deriving DecidableEq

namespace Watch

/-- The watch after a statement. -/
def statement (watch : Watch) : Option Watch :=
  if watch.inIf then some watch
  else if watch.inElse then
    match watch.standing with
    | .pending | .last => some watch
    | .none | .covered => none
  else
    match watch.standing with
    | .pending => none
    | .last => some { watch with standing := .covered }
    | .none | .covered => some watch

/-- The watch after the end of a block. -/
def closeBlock (watch : Watch) : Option Watch :=
  if watch.inIf then some { watch with inIf := false }
  else if watch.inElse then
    if watch.standing = .pending then some { watch with inElse := false, standing := .last }
    else none
  else some watch

/-- The watch after the start of a second block. -/
def openElse (watch : Watch) : Watch :=
  { watch with inIf := false, inElse := true }

/-- The watch after a line, unless the line puts something out of its place. -/
def step {α : Type} (watch : Watch) : Effect α → Option Watch
  | .pass => some watch
  | .statement _ => watch.statement
  | .conditional _ =>
      if watch.standing = .pending then none
      else some { watch with inIf := true, standing := .pending }
  | .close => watch.closeBlock
  | .closeElse => watch.closeBlock.map openElse
  | .openElse => some watch.openElse

/-- Whether lines leave everything in its place. -/
def accepts {α : Type} (watch : Watch) : List (Effect α) → Bool
  | [] => watch.standing ≠ .pending
  | effect :: rest =>
      match watch.step effect with
      | none => false
      | some watch => watch.accepts rest

end Watch

/-! ## Later lines cannot repair a layout -/

namespace Layout

variable {α : Type} (null : α)

private theorem settled_closeBlock (layout : Layout α) :
    layout.closeBlock.settled null = layout.settled null ∨
      layout.closeBlock.settled null = layout.settled null ++ layout.filling null := by
  obtain ⟨items, current, inIf, inElse⟩ := layout
  cases inIf with
  | true => exact Or.inl rfl
  | false =>
      cases inElse with
      | false => exact Or.inl rfl
      | true =>
          right
          simp [settled, closeBlock, filling]

theorem filling_closeBlock (layout : Layout α) :
    layout.closeBlock.filling null = layout.filling null := by
  obtain ⟨items, current, inIf, inElse⟩ := layout
  cases inIf <;> cases inElse <;> rfl

section Filter

variable {p : α → Bool}

theorem filter_fill (filling : List α) (items : List (Option α)) :
    (fill filling items).filter p = (fill (filling.filter p) items).filter p := by
  induction items with
  | nil => rfl
  | cons item items ih =>
      cases item with
      | none => simp [ih]
      | some item => simp [List.filter_cons, ih]

theorem filter_filling_add {item : α} (hitem : p item = false) (layout : Layout α) :
    ((layout.add item).filling null).filter p = (layout.filling null).filter p := by
  obtain ⟨items, current, inIf, inElse⟩ := layout
  cases inIf <;> cases inElse <;> cases current <;> simp [add, filling, hitem]

private theorem filter_settled_add {item : α} (hitem : p item = false) (layout : Layout α) :
    ((layout.add item).settled null).filter p = (layout.settled null).filter p := by
  rw [settled, filter_fill, filter_filling_add null hitem, ← filter_fill, settled]
  obtain ⟨items, current, inIf, inElse⟩ := layout
  cases inIf <;> cases inElse <;> simp [add, hitem]

/-- Of what was there before, later lines only append copies of the conditional under
construction. -/
theorem filter_settled_run (layout : Layout α) (effects : List (Effect α))
    (hcontents : ∀ effect ∈ effects, ∀ item, effect.content? = some item → p item = false) :
    ∃ copies, ((layout.run null effects).settled null).filter p =
      (layout.settled null).filter p ++
        (List.replicate copies ((layout.filling null).filter p)).flatten := by
  induction effects generalizing layout with
  | nil => exact ⟨0, by simp [run]⟩
  | cons effect effects ih =>
      obtain ⟨copies, hcopies⟩ := ih (layout.apply null effect) fun other hother =>
        hcontents other (List.mem_cons_of_mem _ hother)
      have hcontent := hcontents effect (List.mem_cons_self ..)
      have hclose : ∃ more, (layout.closeBlock.settled null).filter p ++
            (List.replicate copies ((layout.closeBlock.filling null).filter p)).flatten =
          (layout.settled null).filter p ++
            (List.replicate more ((layout.filling null).filter p)).flatten := by
        rw [filling_closeBlock]
        rcases layout.settled_closeBlock null with hsame | hmore
        · exact ⟨copies, by rw [hsame]⟩
        · refine ⟨copies + 1, ?_⟩
          rw [hmore, List.filter_append, List.replicate_succ, List.flatten_cons,
            List.append_assoc]
      rw [run, List.foldl_cons]
      cases effect with
      | pass | openElse => exact ⟨copies, hcopies⟩
      | close | closeElse =>
          obtain ⟨more, hmore⟩ := hclose
          exact ⟨more, hcopies.trans hmore⟩
      | statement item =>
          refine ⟨copies, hcopies.trans ?_⟩
          rw [apply, filter_settled_add null (hcontent item rfl),
            filter_filling_add null (hcontent item rfl)]
      | conditional item =>
          -- The new conditional holds nothing of what was there before.
          refine ⟨0, hcopies.trans ?_⟩
          simp [apply, settled, filling, hcontent item rfl]

end Filter

/-- Everything in a layout has a property. -/
structure Within (property : α → Prop) (layout : Layout α) : Prop where
  items : ∀ item, some item ∈ layout.items → property item
  filling : ∀ item ∈ layout.filling null, property item

section Within

variable {null} {property : α → Prop} {layout : Layout α}

theorem Within.imp {other : α → Prop} (hwithin : Within null property layout)
    (himp : ∀ item, property item → other item) : Within null other layout where
  items item hitem := himp item (hwithin.items item hitem)
  filling item hitem := himp item (hwithin.filling item hitem)

theorem Within.settled (hwithin : Within null property layout) :
    ∀ item ∈ layout.settled null, property item := by
  intro item hitem
  obtain ⟨entry, hentry, hmem⟩ := List.mem_flatMap.mp hitem
  cases entry with
  | none => exact hwithin.filling item hmem
  | some other =>
      rw [List.mem_singleton.mp hmem]
      exact hwithin.items other hentry

theorem Within.add {item : α} (hwithin : Within null property layout) (hitem : property item) :
    Within null property (layout.add item) := by
  obtain ⟨items, current, inIf, inElse⟩ := layout
  obtain ⟨hitems, hfilling⟩ := hwithin
  cases inIf <;> cases inElse <;> cases current <;> constructor <;>
    simp_all [Layout.add, Layout.filling] <;> grind

theorem Within.closeBlock (hwithin : Within null property layout) :
    Within null property layout.closeBlock := by
  refine ⟨?_, ?_⟩
  · intro item hitem
    apply hwithin.items
    obtain ⟨items, current, inIf, inElse⟩ := layout
    cases inIf <;> cases inElse <;> simpa [Layout.closeBlock] using hitem
  · rw [filling_closeBlock]
    exact hwithin.filling

theorem Within.apply {effect : Effect α} (hwithin : Within null property layout)
    (hcontent : ∀ item, effect.content? = some item → property item) :
    Within null property (layout.apply null effect) := by
  cases effect with
  | pass => exact hwithin
  | statement item => exact hwithin.add (hcontent item rfl)
  | close => exact hwithin.closeBlock
  | closeElse => exact ⟨hwithin.closeBlock.items, hwithin.closeBlock.filling⟩
  | openElse => exact ⟨hwithin.items, hwithin.filling⟩
  | conditional item =>
      refine ⟨?_, ?_⟩
      · intro other hother
        obtain ⟨_, hmem, heq⟩ := List.mem_map.mp hother
        cases heq
        exact hwithin.settled other hmem
      · intro other hother
        rw [List.mem_singleton.mp hother]
        exact hcontent item rfl

end Within

/-- Appending copies of the conditional under construction does not give `done`. -/
def Spoiled (layout : Layout α) (done : List α) : Prop :=
  ∀ copies, layout.settled null ++ (List.replicate copies (layout.filling null)).flatten ≠ done

end Layout

/-! ## What a watch knows of a layout -/

/-- The layout holds `done` in this order, and the watch knows where the last conditional stands. -/
inductive Tracks {α : Type} (inElse : Bool) (done : List α) : Watch → Layout α → Prop
  | none : Tracks inElse done ⟨false, inElse, .none⟩ ⟨done.map some, .none, false, inElse⟩
  | opened (before front : List α) (hfront : front ≠ []) (hdone : before ++ front = done) :
      Tracks inElse done ⟨true, inElse, .pending⟩
        ⟨before.map some, some (front, []), true, inElse⟩
  | pending (before front back : List α) (hfront : front ≠ [])
      (hdone : before ++ (front ++ back) = done) :
      Tracks inElse done ⟨false, inElse, .pending⟩
        ⟨before.map some, some (front, back), false, inElse⟩
  | last (before front back : List α) (hfront : front ≠ [])
      (hdone : before ++ (front ++ back) = done) :
      Tracks inElse done ⟨false, inElse, .last⟩
        ⟨before.map some ++ [.none], some (front, back), false, inElse⟩
  | covered (before front back after : List α) (hfront : front ≠ []) (hafter : after ≠ [])
      (hdone : before ++ (front ++ (back ++ after)) = done) :
      Tracks inElse done ⟨false, inElse, .covered⟩
        ⟨before.map some ++ .none :: after.map some, some (front, back), false, inElse⟩

namespace Tracks

open Layout (Spoiled settled filling)

variable {α : Type} {null item : α} {inElse : Bool} {watch watch' : Watch} {layout : Layout α}
  {done : List α}

theorem eq_of_mem_copies {x : α} {copies : Nat}
    (hmem : item ∈ (List.replicate copies [x]).flatten) :
    item = x := by
  obtain ⟨_, hcopy, hitem⟩ := List.mem_flatten.mp hmem
  rw [(List.mem_replicate.mp hcopy).2] at hitem
  exact List.mem_singleton.mp hitem

private theorem inElse_eq (htracks : Tracks inElse done watch layout) :
    watch.inElse = inElse ∧ layout.inElse = inElse := by
  cases htracks <;> exact ⟨rfl, rfl⟩

/-- Only a pending conditional is missing. -/
theorem settled_eq_iff (null : α) (htracks : Tracks inElse done watch layout) :
    layout.settled null = done ↔ watch.standing ≠ .pending := by
  cases htracks with
  | none => simp [settled]
  | opened before front hfront hdone | pending before front back hfront hdone =>
      subst hdone
      simp [settled, hfront]
  | last before front back hfront hdone | covered before front back after hfront hafter hdone =>
      subst hdone
      simp [settled, filling]

theorem openElse (htracks : Tracks inElse done watch layout) :
    Tracks true done watch.openElse layout.openElse := by
  cases htracks with
  | none => exact .none
  | opened before front hfront hdone => exact .pending before front [] hfront (by simpa using hdone)
  | pending before front back hfront hdone => exact .pending before front back hfront hdone
  | last before front back hfront hdone => exact .last before front back hfront hdone
  | covered before front back after hfront hafter hdone =>
      exact .covered before front back after hfront hafter hdone

/-! ### The end of a block -/

theorem closeBlock (htracks : Tracks inElse done watch layout)
    (hclose : watch.closeBlock = some watch') :
    ∃ inElse', Tracks inElse' done watch' layout.closeBlock := by
  cases htracks with
  | opened before front hfront hdone =>
      cases hclose
      exact ⟨inElse, .pending before front [] hfront (by simpa using hdone)⟩
  | none =>
      cases inElse with
      | true => exact nomatch hclose
      | false =>
          cases hclose
          exact ⟨false, .none⟩
  | pending before front back hfront hdone =>
      cases inElse with
      | true =>
          cases hclose
          exact ⟨false, .last before front back hfront hdone⟩
      | false =>
          cases hclose
          exact ⟨false, .pending before front back hfront hdone⟩
  | last before front back hfront hdone =>
      cases inElse with
      | true => exact nomatch hclose
      | false =>
          cases hclose
          exact ⟨false, .last before front back hfront hdone⟩
  | covered before front back after hfront hafter hdone =>
      cases inElse with
      | true => exact nomatch hclose
      | false =>
          cases hclose
          exact ⟨false, .covered before front back after hfront hafter hdone⟩

/-- The end of a second block is put behind everything a second time. -/
theorem spoiled_closeBlock (htracks : Tracks inElse done watch layout)
    (hclose : watch.closeBlock = .none) : Spoiled null layout.closeBlock done := by
  intro copies hcopies
  cases htracks with
  | opened before front hfront hdone => cases hclose
  | none =>
      cases inElse with
      | true => simp [settled, filling, Layout.closeBlock] at hcopies
      | false => cases hclose
  | pending before front back hfront hdone => cases inElse <;> cases hclose
  | last before front back hfront hdone =>
      cases inElse with
      | true =>
          subst hdone
          simp [settled, filling, Layout.closeBlock, hfront] at hcopies
      | false => cases hclose
  | covered before front back after hfront hafter hdone =>
      cases inElse with
      | true =>
          subst hdone
          simp [settled, filling, Layout.closeBlock, hfront] at hcopies
      | false => cases hclose

/-! ### A statement -/

theorem add (htracks : Tracks inElse done watch layout)
    (hstatement : watch.statement = some watch') :
    Tracks inElse (done ++ [item]) watch' (layout.add item) := by
  cases htracks with
  | opened before front hfront hdone =>
      cases hstatement
      subst hdone
      exact .opened before (front ++ [item]) (by simp) (by simp)
  | none =>
      cases inElse with
      | true => cases hstatement
      | false =>
          cases hstatement
          have hnone : Tracks false (done ++ [item]) _ _ := .none
          simpa [Layout.add] using hnone
  | pending before front back hfront hdone =>
      cases inElse with
      | true =>
          cases hstatement
          subst hdone
          exact .pending before front (back ++ [item]) hfront (by simp)
      | false => cases hstatement
  | last before front back hfront hdone =>
      cases inElse with
      | true =>
          cases hstatement
          subst hdone
          exact .last before front (back ++ [item]) hfront (by simp)
      | false =>
          cases hstatement
          subst hdone
          have hcovered : Tracks false (before ++ (front ++ back) ++ [item]) _ _ :=
            .covered before front back [item] hfront (by simp) (by simp)
          simpa [Layout.add] using hcovered
  | covered before front back after hfront hafter hdone =>
      cases inElse with
      | true => cases hstatement
      | false =>
          cases hstatement
          subst hdone
          have hcovered : Tracks false (before ++ (front ++ (back ++ after)) ++ [item]) _ _ :=
            .covered before front back (after ++ [item]) hfront (by simp) (by simp)
          simpa [Layout.add] using hcovered

private theorem spoiled_add (htracks : Tracks inElse done watch layout) (hnull : item ≠ null)
    (hitem : item ∉ done) (hstatement : watch.statement = .none) :
    Spoiled null (layout.add item) (done ++ [item]) := by
  intro copies hcopies
  cases htracks with
  | opened before front hfront hdone => cases hstatement
  | last before front back hfront hdone => cases inElse <;> cases hstatement
  | none =>
      cases inElse with
      | true =>
          -- Without a conditional the statement is lost.
          have hcopies : (List.replicate copies [null]).flatten = [item] := by
            simpa [settled, filling, Layout.add] using hcopies
          exact hnull (eq_of_mem_copies (hcopies ▸ List.mem_singleton.mpr rfl))
      | false => cases hstatement
  | pending before front back hfront hdone =>
      cases inElse with
      | true => cases hstatement
      | false =>
          -- The statement stands where the conditional should.
          obtain ⟨first, others, rfl⟩ := List.exists_cons_of_ne_nil hfront
          subst hdone
          have hcopies : item :: (List.replicate copies (first :: (others ++ back))).flatten =
              first :: (others ++ (back ++ [item])) := by
            simpa [settled, filling, Layout.add] using hcopies
          exact hitem (by simp [(List.cons.inj hcopies).1])
  | covered before front back after hfront hafter hdone =>
      cases inElse with
      | true =>
          -- The statement stands in front of the statements behind the conditional.
          obtain ⟨first, others, rfl⟩ := List.exists_cons_of_ne_nil hafter
          subst hdone
          have hcopies : item :: (first :: others ++
              (List.replicate copies (front ++ (back ++ [item]))).flatten) =
              first :: (others ++ [item]) := by
            simpa [settled, filling, Layout.add] using hcopies
          exact hitem (by simp [(List.cons.inj hcopies).1])
      | false => cases hstatement

/-! ### A conditional -/

theorem openConditional (htracks : Tracks inElse done watch layout)
    (hstanding : watch.standing ≠ .pending) :
    Tracks inElse (done ++ [item]) { watch with inIf := true, standing := .pending }
      (layout.apply null (.conditional item)) := by
  obtain ⟨hwatch, hlayout⟩ := htracks.inElse_eq
  rw [Layout.apply, (htracks.settled_eq_iff null).mpr hstanding, hwatch, hlayout]
  exact .opened done [item] (by simp) rfl

/-- A pending conditional comes behind everything that has a place. -/
theorem done_eq_of_pending (null : α) (htracks : Tracks inElse done watch layout)
    (hstanding : watch.standing = .pending) :
    ∃ first others, done = layout.settled null ++ first :: others := by
  cases htracks with
  | none | last | covered => exact nomatch hstanding
  | opened before front hfront hdone =>
      obtain ⟨first, others, rfl⟩ := List.exists_cons_of_ne_nil hfront
      exact ⟨first, others, by simp [settled, ← hdone]⟩
  | pending before front back hfront hdone =>
      obtain ⟨first, others, rfl⟩ := List.exists_cons_of_ne_nil hfront
      exact ⟨first, others ++ back, by simp [settled, ← hdone]⟩

private theorem spoiled_openConditional (htracks : Tracks inElse done watch layout)
    (hitem : item ∉ done) (hstanding : watch.standing = .pending) :
    Spoiled null (layout.apply null (.conditional item)) (done ++ [item]) := by
  intro copies hcopies
  obtain ⟨first, others, hdone⟩ := htracks.done_eq_of_pending null hstanding
  have hcopies : (List.replicate copies [item]).flatten = first :: (others ++ [item]) := by
    rw [hdone] at hcopies
    simpa [Layout.apply, settled, filling] using hcopies
  have hfirst : first = item := eq_of_mem_copies (hcopies ▸ List.mem_cons_self ..)
  exact hitem (by simp [hdone, hfirst])

/-! ### A line -/

theorem step {effect : Effect α} (null : α) (htracks : Tracks inElse done watch layout)
    (hstep : watch.step effect = some watch') :
    ∃ inElse', Tracks inElse' (done ++ effect.content?.toList) watch'
      (layout.apply null effect) := by
  cases effect with
  | pass =>
      cases hstep
      exact ⟨inElse, by simpa [Effect.content?, Layout.apply] using htracks⟩
  | openElse =>
      cases hstep
      exact ⟨true, by simpa [Effect.content?, Layout.apply] using htracks.openElse⟩
  | statement item => exact ⟨inElse, htracks.add hstep⟩
  | close =>
      obtain ⟨inElse', hclosed⟩ := htracks.closeBlock hstep
      exact ⟨inElse', by simpa [Effect.content?, Layout.apply] using hclosed⟩
  | closeElse =>
      obtain ⟨closed, hclose, rfl⟩ := Option.map_eq_some_iff.mp hstep
      obtain ⟨inElse', hclosed⟩ := htracks.closeBlock hclose
      exact ⟨true, by simpa [Effect.content?, Layout.apply] using hclosed.openElse⟩
  | conditional item =>
      simp only [Watch.step] at hstep
      split at hstep
      · cases hstep
      · rename_i hstanding
        cases hstep
        exact ⟨inElse, htracks.openConditional hstanding⟩

private theorem spoiled_step {effect : Effect α} (htracks : Tracks inElse done watch layout)
    (hcontent : ∀ item, effect.content? = some item → item ≠ null ∧ item ∉ done)
    (hstep : watch.step effect = .none) :
    Spoiled null (layout.apply null effect) (done ++ effect.content?.toList) := by
  cases effect with
  | pass | openElse => cases hstep
  | statement item =>
      obtain ⟨hnull, hitem⟩ := hcontent item rfl
      exact htracks.spoiled_add hnull hitem hstep
  | close => simpa [Effect.content?, Layout.apply] using htracks.spoiled_closeBlock hstep
  | closeElse =>
      simp only [Effect.content?, Option.toList_none, List.append_nil]
      exact htracks.spoiled_closeBlock (Option.map_eq_none_iff.mp hstep)
  | conditional item =>
      simp only [Watch.step] at hstep
      split at hstep
      · rename_i hstanding
        exact htracks.spoiled_openConditional (hcontent item rfl).2 hstanding
      · cases hstep

theorem within (null : α) (htracks : Tracks inElse done watch layout) :
    Layout.Within null (fun item => item = null ∨ item ∈ done) layout := by
  cases htracks <;> constructor <;> simp [filling] <;> grind

end Tracks

/-! ## Everything in its place -/

namespace Layout

variable {α : Type} [DecidableEq α] {null : α} {inElse : Bool} {watch : Watch} {layout : Layout α}
  {done : List α}

/-- A layout that is spoiled stays so. -/
theorem settled_run_ne {effects : List (Effect α)} (hspoiled : Spoiled null layout done)
    (hwithin : Within null (fun item => item = null ∨ item ∈ done) layout)
    (hnull : null ∉ done ++ effects.filterMap Effect.content?)
    (hnodup : (done ++ effects.filterMap Effect.content?).Nodup) :
    (layout.run null effects).settled null ≠ done ++ effects.filterMap Effect.content? := by
  intro hsettled
  -- Comparing the two sides on what was there before leaves only copies of the last conditional.
  let old : α → Bool := fun item => item = null ∨ item ∈ done
  have hold : ∀ items : List α, (∀ item ∈ items, item = null ∨ item ∈ done) →
      items.filter old = items := by
    intro items hitems
    rw [List.filter_eq_self]
    intro item hitem
    exact decide_eq_true (hitems item hitem)
  have hnew : ∀ item ∈ effects.filterMap Effect.content?, old item = false := by
    intro item hitem
    apply decide_eq_false
    rintro (rfl | hdone)
    · exact hnull (List.mem_append_right _ hitem)
    · exact (List.nodup_append.mp hnodup).2.2 item hdone item hitem rfl
  have hcontents : ∀ effect ∈ effects, ∀ item, effect.content? = some item → old item = false :=
    fun effect heffect item hitem => hnew item (List.mem_filterMap.mpr ⟨effect, heffect, hitem⟩)
  obtain ⟨copies, hcopies⟩ := filter_settled_run null layout effects hcontents
  have hlater : (effects.filterMap Effect.content?).filter old = [] := by
    rw [List.filter_eq_nil_iff]
    intro item hitem
    simp [hnew item hitem]
  rw [hsettled, List.filter_append, hlater, List.append_nil, hold _ hwithin.settled,
    hold _ hwithin.filling, hold done fun _ => Or.inr] at hcopies
  exact hspoiled copies hcopies.symm

/-- **Everything is in its place exactly if the watch accepts the lines.** -/
theorem settled_run_eq_iff {effects : List (Effect α)} (htracks : Tracks inElse done watch layout)
    (hnull : null ∉ done ++ effects.filterMap Effect.content?)
    (hnodup : (done ++ effects.filterMap Effect.content?).Nodup) :
    (layout.run null effects).settled null = done ++ effects.filterMap Effect.content? ↔
      watch.accepts effects = true := by
  induction effects generalizing inElse done watch layout with
  | nil => simpa [run, Watch.accepts] using htracks.settled_eq_iff null
  | cons effect effects ih =>
      have hcontents : done ++ (effect :: effects).filterMap Effect.content? =
          (done ++ effect.content?.toList) ++ effects.filterMap Effect.content? := by
        cases hcontent : effect.content? <;> simp [hcontent]
      rw [hcontents] at hnull hnodup ⊢
      rw [run, List.foldl_cons, Watch.accepts]
      cases hstep : watch.step effect with
      | some watch' =>
          obtain ⟨inElse', htracks'⟩ := htracks.step null hstep
          exact ih htracks' hnull hnodup
      | none =>
          -- The line puts something out of its place, and no later line can repair that.
          have hcontent : ∀ item, effect.content? = some item → item ≠ null ∧ item ∉ done := by
            intro item hitem
            have hmem : item ∈ effect.content?.toList := by simp [hitem]
            refine ⟨?_, ?_⟩
            · rintro rfl
              exact hnull (List.mem_append_left _ (List.mem_append_right _ hmem))
            · intro hdone
              have hfront := (List.nodup_append.mp hnodup).1
              exact (List.nodup_append.mp hfront).2.2 item hdone item hmem rfl
          have hwithin : Within null
              (fun item => item = null ∨ item ∈ done ++ effect.content?.toList)
              (layout.apply null effect) := by
            apply Within.apply
            · exact (htracks.within null).imp fun item => Or.imp_right (List.mem_append_left _)
            · intro item hitem
              exact Or.inr (List.mem_append_right _ (by simp [hitem]))
          have hne := settled_run_ne (htracks.spoiled_step hcontent hstep) hwithin hnull hnodup
          exact ⟨fun heq => absurd heq hne, fun haccepts => by cases haccepts⟩

end Layout

end LineCompiler
