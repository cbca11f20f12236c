import ShaderLang.Render.Pass
/-!
# States that still count as default

A pass keeps a mark for each of its three states that nothing has been set of it. No statement sets
such a mark again, and a statement that leaves a mark leaves the state under it as it is.

## Main definitions

* `KeepsDefaults` — what later states may say of earlier ones
* `PassStates.Marked` — a state that counts as default is the default one

## Main results

* `PassData.keepsDefaults_applyState`, `PassData.keepsDefaults_applyStates`,
  `PassData.keepsDefaults_applyBody` — all statements on a pass are of this kind
* `KeepsDefaults.marked` — whatever comes of the standard states is marked rightly
-/

namespace ShaderLang

/-- A state that counts as default in `q` counted so in `p` already, and has not changed. -/
structure KeepsDefaults (p q : PassStates) : Prop where
  blend : q.blendIsDefault = true → p.blendIsDefault = true ∧ q.blend = p.blend
  raster : q.rasterIsDefault = true → p.rasterIsDefault = true ∧ q.raster = p.raster
  depthStencil : q.depthStencilIsDefault = true →
    p.depthStencilIsDefault = true ∧ q.depthStencil = p.depthStencil

/-- A state that counts as default is the default one. -/
structure PassStates.Marked (p : PassStates) : Prop where
  blend : p.blendIsDefault = true → p.blend = .standard
  raster : p.rasterIsDefault = true → p.raster = .standard
  depthStencil : p.depthStencilIsDefault = true → p.depthStencil = .standard

namespace KeepsDefaults

variable {p q r : PassStates}

theorem refl (p : PassStates) : KeepsDefaults p p :=
  ⟨fun h => ⟨h, rfl⟩, fun h => ⟨h, rfl⟩, fun h => ⟨h, rfl⟩⟩

theorem trans (h : KeepsDefaults p q) (h' : KeepsDefaults q r) : KeepsDefaults p r where
  blend hr := by
    obtain ⟨hq, heq⟩ := h'.blend hr
    exact ⟨(h.blend hq).1, heq.trans (h.blend hq).2⟩
  raster hr := by
    obtain ⟨hq, heq⟩ := h'.raster hr
    exact ⟨(h.raster hq).1, heq.trans (h.raster hq).2⟩
  depthStencil hr := by
    obtain ⟨hq, heq⟩ := h'.depthStencil hr
    exact ⟨(h.depthStencil hq).1, heq.trans (h.depthStencil hq).2⟩

theorem foldl {α : Type} {step : PassData → α → PassData}
    (h : ∀ p a, KeepsDefaults p.toPassStates (step p a).toPassStates) (l : List α) (p : PassData) :
    KeepsDefaults p.toPassStates (l.foldl step p).toPassStates := by
  induction l generalizing p with
  | nil => exact refl _
  | cons a l ih => exact (h p a).trans (ih (step p a))

/-- Whatever comes of the standard states is marked rightly. -/
theorem marked (h : KeepsDefaults .standard p) : p.Marked :=
  ⟨fun hp => (h.blend hp).2, fun hp => (h.raster hp).2, fun hp => (h.depthStencil hp).2⟩

end KeepsDefaults

theorem BlendState.set_of_not_isSetting {s : Setting Tree} (h : isSetting s = false)
    (acc : BlendState × Nat) : set acc s = acc := by
  obtain ⟨kind, value⟩ := s
  dsimp only [set]
  split
  case h_4 => rfl
  all_goals cases h

theorem BlendState.apply_of_not_any {block : Tree} (h : block.declared.any isSetting = false)
    (b : BlendState) : b.apply block = b := by
  have hfold : ∀ (ss : List (Setting Tree)), ss.any isSetting = false →
      ∀ acc, ss.foldl set acc = acc := by
    intro ss
    induction ss with
    | nil => exact fun _ _ => rfl
    | cons s ss ih =>
      intro hany acc
      obtain ⟨hs, hss⟩ := Bool.or_eq_false_iff.1 (List.any_cons ▸ hany)
      rw [List.foldl_cons, set_of_not_isSetting hs, ih hss]
  rw [apply, hfold block.declared h]

namespace PassData

theorem keepsDefaults_setBlend (p : PassData) (block : Tree) :
    KeepsDefaults p.toPassStates (p.setBlend block).toPassStates where
  blend h := by
    obtain ⟨hp, hany⟩ := Bool.and_eq_true_iff.1 h
    exact ⟨hp, BlendState.apply_of_not_any (Bool.not_eq_true' _ ▸ hany) p.blend⟩
  raster h := ⟨h, rfl⟩
  depthStencil h := ⟨h, rfl⟩

theorem keepsDefaults_setRaster (p : PassData) (s : Setting Tree) :
    KeepsDefaults p.toPassStates (p.setRaster s).toPassStates := by
  rw [setRaster]
  split
  · exact ⟨fun h => ⟨h, rfl⟩, nofun, fun h => ⟨h, rfl⟩⟩
  · exact .refl _

theorem keepsDefaults_setDepth (p : PassData) (s : Setting Tree) :
    KeepsDefaults p.toPassStates (p.setDepth s).toPassStates := by
  rw [setDepth]
  split
  · exact ⟨fun h => ⟨h, rfl⟩, fun h => ⟨h, rfl⟩, nofun⟩
  · exact .refl _

theorem keepsDefaults_setStencil (p : PassData) (s : Setting Tree) :
    KeepsDefaults p.toPassStates (p.setStencil s).toPassStates := by
  rw [setStencil]
  split
  -- The reference value is not part of the state.
  · exact ⟨fun h => ⟨h, rfl⟩, fun h => ⟨h, rfl⟩, fun h => ⟨h, rfl⟩⟩
  · split
    · exact ⟨fun h => ⟨h, rfl⟩, fun h => ⟨h, rfl⟩, nofun⟩
    · exact .refl _

theorem keepsDefaults_applyState (p : PassData) (s : Setting Tree) :
    KeepsDefaults p.toPassStates (p.applyState s).toPassStates := by
  rw [applyState]
  split
  · exact keepsDefaults_setBlend p _
  · exact .foldl keepsDefaults_setRaster _ p
  · exact .foldl keepsDefaults_setDepth _ p
  · exact .foldl keepsDefaults_setStencil _ p
  · exact .refl _

theorem keepsDefaults_applyStates (p : PassData) (body : Tree) :
    KeepsDefaults p.toPassStates (p.applyStates body).toPassStates :=
  .foldl keepsDefaults_applyState body.declared p

theorem keepsDefaults_applyBody (d : Document) (p : PassData) (body : Tree) :
    KeepsDefaults p.toPassStates (p.applyBody d body).toPassStates := by
  refine .foldl (fun p s => ?_) body.declared p
  rw [applyStatement]
  split
  · exact .refl _
  · exact keepsDefaults_applyState p s

end PassData
end ShaderLang
