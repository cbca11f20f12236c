import ShaderLang.Proofs.Render.Code
/-!
# The slots of a `blend` block

The `target` statements of a `blend` block share a running index. A statement is for the slot of the
index that it names last, or else of the running one, and the next statement counts on from there.
One whose index is beyond the slots touches none of them, and the running index stays with it. So a
slot has in each field what was written to it last by the statements for this slot.

## Main definitions

* `Tree.targetStatements`, `Tree.slotWrites` — the statements of a block, and what one of them writes
* `BlendState.Fills` — what statements do to the slots, one after the other
* `BlendState.addressing` — the indices of statements

## Main results

* `BlendState.fills_apply` — a block does to the slots what its statements say
* `BlendState.Fills.get` — what the fields of the slots hold then
* `PassData.targets_touch_addressed` — a block touches the slots that it addresses, and once is
  enough
-/

namespace ShaderLang

/-- The `target` statement that a setting is, if it is one. -/
def Setting.targetStatement? (s : Setting Tree) : Option Tree :=
  match s.kind, s.value with
  | .target, .node statement => some statement
  | _, _ => none

/-- The `target` statements of a block, in the order in which they are written. -/
def Tree.targetStatements (block : Tree) : List Tree :=
  block.declared.filterMap Setting.targetStatement?

/-- What a `target` statement writes to the slot that it is for. -/
def Tree.slotWrites (statement : Tree) : Writes TargetField :=
  statement.declared.flatMap TargetBlend.writes

/-! ## Fields make up the states -/

theorem TargetBlend.ext_get {t u : TargetBlend} (h : ∀ f, t.get f = u.get f) : t = u := by
  have henable : t.enable = u.enable := FieldValue.flag.inj (h .enable)
  have hsource : t.source = u.source := FieldValue.factor.inj (h .source)
  have hdest : t.dest = u.dest := FieldValue.factor.inj (h .dest)
  have hoperation : t.operation = u.operation := FieldValue.equation.inj (h .operation)
  have hsourceAlpha : t.sourceAlpha = u.sourceAlpha := FieldValue.factor.inj (h .sourceAlpha)
  have hdestAlpha : t.destAlpha = u.destAlpha := FieldValue.factor.inj (h .destAlpha)
  have hoperationAlpha : t.operationAlpha = u.operationAlpha :=
    FieldValue.equation.inj (h .operationAlpha)
  have hwriteMask : t.writeMask = u.writeMask := FieldValue.mask.inj (h .writeMask)
  cases t
  cases u
  simp_all only

theorem BlendState.ext_get {b c : BlendState} (h : ∀ f, b.get f = c.get f) : b = c := by
  obtain ⟨alphaToCoverage, independent, targets⟩ := b
  have halpha := h .alphaToCoverage
  have hindependent := h .independent
  have htargets : targets = c.targets := by
    ext i hi : 1
    exact TargetBlend.ext_get fun f => h (.target ⟨i, hi⟩ f)
  simp only [get, FieldValue.flag.injEq] at halpha hindependent
  subst_vars
  rfl

/-- What only writes does no more when it is done again. -/
theorem Overwrites.twice {σ φ : Type} [DecidableEq φ] {get : σ → φ → FieldValue} {change : σ → σ}
    {ws : Writes φ} (h : Overwrites get change ws) (s : σ) (f : φ) :
    get (change (change s)) f = get (change s) f := by
  rw [h, h]
  cases ws.last? f <;> rfl

namespace BlendState

/-! ## What statements do to the slots -/

/-- The slots of the render targets. -/
abbrev Slots := Vector TargetBlend targetCount

/-- The index of a `target` statement: the one that it names last, zero if that is negative, or else
the running one. -/
def indexFrom (running : Nat) (statement : Tree) : Nat :=
  (statement.writtenIndex?.map Int.toNat).getD running

/-- What `target` statements do to the slots one after the other, from a running index on. -/
inductive Fills : Nat → List Tree → Slots → Slots → Prop
  | done {running : Nat} {slots : Slots} : Fills running [] slots slots
  /-- An index beyond the slots touches none of them, and the next statement starts with it. -/
  | beyond {running : Nat} {statement : Tree} {statements : List Tree} {slots after : Slots}
      (hindex : targetCount ≤ indexFrom running statement)
      (h : Fills (indexFrom running statement) statements slots after) :
      Fills running (statement :: statements) slots after
  /-- The fields that a statement writes are changed in its slot, and the next statement starts with
  the next index. -/
  | slot {running : Nat} {statement : Tree} {statements : List Tree} {slots filled after : Slots}
      {i : Fin targetCount} (hindex : indexFrom running statement = i)
      (hslot : ∀ f, (filled.get i).get f = (statement.slotWrites.last? f).getD ((slots.get i).get f))
      (hothers : ∀ j ≠ i, filled.get j = slots.get j) (h : Fills (i + 1) statements filled after) :
      Fills running (statement :: statements) slots after

/-- The statements with their indices, from a running index on. -/
def addressing : Nat → List Tree → List (Nat × Tree)
  | _, [] => []
  | running, statement :: statements =>
    let i := indexFrom running statement
    (i, statement) :: addressing (if i < targetCount then i + 1 else i) statements

/-- What is written to the slot of an index by the statements that have it. -/
def writesTo (i : Nat) (addressed : List (Nat × Tree)) : Writes TargetField :=
  (addressed.filter (·.1 = i)).flatMap (·.2.slotWrites)

theorem writesTo_cons_self (i : Nat) (statement : Tree) (addressed : List (Nat × Tree)) :
    writesTo i ((i, statement) :: addressed) = statement.slotWrites ++ writesTo i addressed := by
  simp [writesTo]

theorem writesTo_cons_of_ne {i j : Nat} (h : j ≠ i) (statement : Tree)
    (addressed : List (Nat × Tree)) :
    writesTo i ((j, statement) :: addressed) = writesTo i addressed := by
  simp [writesTo, h]

variable {running : Nat} {statements : List Tree} {slots after : Slots}

/-- Each field of each slot has what was written to it last. -/
theorem Fills.get (h : Fills running statements slots after) (i : Fin targetCount)
    (f : TargetField) :
    (after.get i).get f =
      ((writesTo i (addressing running statements)).last? f).getD ((slots.get i).get f) := by
  induction h with
  | done => rfl
  | @beyond running statement statements slots after hindex h ih =>
    -- The statement is for no slot, and so not for this one.
    have hne : indexFrom running statement ≠ i := Nat.ne_of_gt (Nat.lt_of_lt_of_le i.isLt hindex)
    rw [ih, addressing, writesTo_cons_of_ne hne, if_neg (Nat.not_lt.2 hindex)]
  | @slot running statement statements slots filled after j hindex hslot hothers h ih =>
    have hnext : (if indexFrom running statement < targetCount
        then indexFrom running statement + 1 else indexFrom running statement) = j + 1 := by
      rw [hindex, if_pos j.isLt]
    rw [ih, addressing, hnext, hindex]
    by_cases hij : i = j
    · subst hij
      -- Later statements for the slot have the last word.
      rw [writesTo_cons_self, Writes.last?_append, hslot]
      cases (writesTo i (addressing (i + 1) statements)).last? f <;> rfl
    · have hne : (j : Nat) ≠ i := fun heq => hij (Fin.ext heq.symm)
      rw [writesTo_cons_of_ne hne, hothers i hij]

/-- A slot that no statement is for stays as it is. -/
theorem Fills.eq_of_not_addressed (h : Fills running statements slots after) (i : Fin targetCount)
    (hi : ∀ e ∈ addressing running statements, e.1 ≠ i) : after.get i = slots.get i := by
  have hnone : (addressing running statements).filter (·.1 = (i : Nat)) = [] :=
    List.filter_eq_nil_iff.2 fun e he => by simpa using hi e he
  apply TargetBlend.ext_get
  intro f
  rw [h.get, writesTo, hnone, List.flatMap_nil, Writes.last?_nil, Option.getD_none]

theorem targetIndex_eq (statement : Tree) (running : Nat) :
    targetIndex statement running = indexFrom running statement := by
  rw [targetIndex, indexFrom, Tree.writtenIndex?_eq_find?]
  cases (statement.find? .index).bind Value.int? <;> rfl

/-- A statement in front of others. -/
theorem fills_cons {b : BlendState} {statement : Tree}
    (h : Fills (b.setTarget running statement).2 statements
      (b.setTarget running statement).1.targets after) :
    Fills running (statement :: statements) b.targets after := by
  rw [setTarget] at h
  simp only [targetIndex_eq] at h
  split at h
  · next hlt =>
    have hwrites := Overwrites.foldl TargetBlend.set_overwrites statement.declared
    refine .slot (i := ⟨_, hlt⟩) rfl (fun f => ?_) (fun j hj => ?_) h
    · exact (congrArg (TargetBlend.get · f) (Vector.getElem_set_self hlt)).trans (hwrites _ f)
    · exact Vector.getElem_set_ne hlt j.isLt fun heq => hj (Fin.ext heq.symm)
  · next hge => exact .beyond (Nat.not_lt.1 hge) h

theorem set_of_statement {s : Setting Tree} {statement : Tree}
    (h : s.targetStatement? = some statement) (b : BlendState) (running : Nat) :
    set (b, running) s = setTarget b running statement := by
  obtain ⟨kind, value⟩ := s
  rw [Setting.targetStatement?] at h
  split at h
  · next hkind hvalue =>
    cases h
    obtain rfl : kind = .target := hkind
    obtain rfl : value = .node statement := hvalue
    rfl
  · cases h

/-- A setting that is no `target` statement leaves the slots and the running index as they are. -/
theorem set_of_no_statement {s : Setting Tree} (h : s.targetStatement? = none) (b : BlendState)
    (running : Nat) :
    (set (b, running) s).1.targets = b.targets ∧ (set (b, running) s).2 = running := by
  obtain ⟨kind, value⟩ := s
  dsimp only [set]
  split
  · exact ⟨rfl, rfl⟩
  · exact ⟨rfl, rfl⟩
  · cases h
  · exact ⟨rfl, rfl⟩

/-- Settings do to the slots what the `target` statements among them say. -/
theorem fills_foldl (ss : List (Setting Tree)) (b : BlendState) (running : Nat) :
    Fills running (ss.filterMap Setting.targetStatement?) b.targets
      (ss.foldl set (b, running)).1.targets := by
  induction ss generalizing b running with
  | nil => exact .done
  | cons s ss ih =>
    rw [List.foldl_cons]
    cases hs : s.targetStatement? with
    | some statement =>
      rw [List.filterMap_cons_some hs, set_of_statement hs]
      exact fills_cons (ih _ _)
    | none =>
      -- Other settings change the state, but none of what the slots depend on.
      obtain ⟨htargets, hrunning⟩ := set_of_no_statement hs b running
      generalize set (b, running) s = acc at htargets hrunning ⊢
      obtain ⟨c, next⟩ := acc
      obtain rfl : next = running := hrunning
      rw [List.filterMap_cons_none hs, ← htargets]
      exact ih c next

/-- A `blend` block does to the slots what its `target` statements say, one after the other. -/
theorem fills_apply (block : Tree) (b : BlendState) :
    Fills 0 block.targetStatements b.targets (b.apply block).targets :=
  fills_foldl block.declared b 0

/-! ## What a block leaves -/

/-- A block that is applied again does no more. -/
theorem apply_apply (block : Tree) (b : BlendState) :
    (b.apply block).apply block = b.apply block :=
  ext_get fun f => (apply_overwrites block).twice b f

/-- A field that is not of a slot is left alone by `target` statements. -/
theorem get_set_of_target {s : Setting Tree} (hkind : s.kind = .target) {f : BlendField}
    (hf : ∀ i g, f ≠ .target i g) (acc : BlendState × Nat) : (set acc s).1.get f = acc.1.get f := by
  obtain ⟨kind, value⟩ := s
  obtain rfl : kind = .target := hkind
  cases value with
  | node statement =>
    change (setTarget acc.1 acc.2 statement).1.get f = acc.1.get f
    rw [setTarget]
    split
    · cases f with
      | alphaToCoverage | independent => rfl
      | target i g => exact absurd rfl (hf i g)
    · rfl
  | leaf => rfl

theorem get_apply_of_targets {block : Tree} (hkind : ∀ s ∈ block.declared, s.kind = .target)
    {f : BlendField} (hf : ∀ i g, f ≠ .target i g) (b : BlendState) :
    (b.apply block).get f = b.get f :=
  List.foldlRecOn block.declared set (motive := fun acc => acc.1.get f = b.get f) rfl
    fun acc ih s hs => (get_set_of_target (hkind s hs) hf acc).trans ih

end BlendState

namespace PassData

theorem setBlend_setBlend (p : PassData) (block : Tree) :
    (p.setBlend block).setBlend block = p.setBlend block := by
  have hblend := BlendState.apply_apply block p.blend
  simp only [setBlend, hblend, Bool.and_assoc, Bool.and_self]

/-- A `blend` block touches the slots that it addresses, and no other. Its `target` statements fill
them one after the other, counting from zero: each changes the fields that it writes in the slot of
the index that it names last, or else of the running one, and an index beyond the slots changes
none and is kept. In the end each field of a slot has what the statements for the slot wrote to it
last, and without any the value that it had. So a slot that no statement is for stays as it is, as
do all other fields if there are `target` statements only, and a block that is applied twice does
what it does once. -/
theorem targets_touch_addressed (p : PassData) (block : Tree) :
    let addressed := BlendState.addressing 0 block.targetStatements
    let after := p.setBlend block
    BlendState.Fills 0 block.targetStatements p.blend.targets after.blend.targets ∧
    (∀ (i : Fin targetCount) (f : TargetField), (after.blend.targets.get i).get f =
      ((BlendState.writesTo i addressed).last? f).getD ((p.blend.targets.get i).get f)) ∧
    (∀ i : Fin targetCount, (∀ e ∈ addressed, e.1 ≠ i) →
      after.blend.targets.get i = p.blend.targets.get i) ∧
    ((∀ s ∈ block.declared, s.kind = .target) →
      ∀ f : Field, (∀ i g, f ≠ .blend (.target i g)) → after.get f = p.get f) ∧
    after.setBlend block = after := by
  have hfills := BlendState.fills_apply block p.blend
  refine ⟨hfills, hfills.get, hfills.eq_of_not_addressed, fun hkind f hf => ?_,
    setBlend_setBlend p block⟩
  cases f with
  | blend f =>
    have hslot : ∀ i g, f ≠ .target i g := fun i g heq => hf i g (congrArg Field.blend heq)
    exact BlendState.get_apply_of_targets hkind hslot p.blend
  | raster f | depthStencil f | stencilRef => rfl

/-- A `target` statement with settings in the order in which they are written. -/
def targetStatement (settings : List (Setting Tree)) : Setting Tree :=
  ⟨.target, .node (.node ⟨.target, settings.reverse⟩)⟩

/-- An index that is named twice, one counted on, one beyond the slots and one that stays there, and
one for the alpha of the last slot but one. -/
def scatteredBlock : Tree :=
  .node ⟨.blend, [
    targetStatement [⟨.index, .leaf (.int 5)⟩, ⟨.enabled, .leaf (.bool true)⟩,
      ⟨.index, .leaf (.int (-1))⟩],
    targetStatement [⟨.writeMask, .leaf (.int 3)⟩],
    targetStatement [⟨.index, .leaf (.int 9)⟩, ⟨.enabled, .leaf (.bool true)⟩],
    targetStatement [⟨.enabled, .leaf (.bool true)⟩],
    targetStatement [⟨.index, .leaf (.int 6)⟩,
      ⟨.alpha, .node (.node ⟨.blendDef, [⟨.source, .leaf (.operand .srcA)⟩]⟩)⟩]].reverse⟩

/-- The slots zero, one and six are addressed. The first is enabled and keeps its mask, the second
has its mask changed, slot six its source factor for alpha, and slot five stays as it is. -/
theorem targets_touch_addressed_scattered :
    let p := PassData.fresh 0
    let after := p.setBlend scatteredBlock
    (BlendState.addressing 0 scatteredBlock.targetStatements).map (·.1) = [0, 1, 9, 9, 6] ∧
    after.blend.targets[0] = { TargetBlend.standard with enable := true } ∧
    after.blend.targets[1].get .writeMask = .mask 3 ∧
    after.blend.targets[6].get .sourceAlpha = .factor .sourceAlpha ∧
    after.blend.targets[5] = p.blend.targets[5] ∧
    after.get (.blend .independent) = p.get (.blend .independent) ∧
    after.setBlend scatteredBlock = after := by
  obtain ⟨-, hlast, huntouched, hothers, htwice⟩ :=
    targets_touch_addressed (.fresh 0) scatteredBlock
  have hfirst := hlast ⟨0, by decide⟩
  have hmask := hlast ⟨1, by decide⟩ .writeMask
  have halpha := hlast ⟨6, by decide⟩ .sourceAlpha
  refine ⟨by decide, TargetBlend.ext_get fun f => (hfirst f).trans ?_, hmask.trans (by decide),
    halpha.trans (by decide), huntouched ⟨5, by decide⟩ (by decide), hothers (by decide) _ nofun,
    htwice⟩
  cases f <;> decide

end PassData
end ShaderLang
