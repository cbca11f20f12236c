import Mathlib.Data.List.Basic
import ShaderLang.Render.Pass
/-!
# The fields of the render states

The states of a pass taken apart into their fields, and the statements of a description as writes to
them. What a statement does to the states does not depend on what they are: it writes the same
values to the same fields whenever it is applied, and nothing else. A row of statements therefore
leaves in every field what was written to it last.

## Main definitions

* `Field`, `PassStates.get` — the fields of the states of a pass, and their values
* `Writes`, `Writes.last?` — values written to fields in order, and the last one of a field
* `Overwrites` — a change of states that only writes, and what it writes
* `Tree.stateWrites` — the writes of the state blocks of a body

## Main results

* `Overwrites.foldl` — a row of changes that only write writes what they write, in order
* `PassData.applyStates_overwrites`, `PassData.applyBody_overwrites` — the state blocks of a body
  only write, and so does a `pass` statement
-/

namespace ShaderLang

/-! ## Fields -/

/-- What a field holds. -/
inductive FieldValue
  | flag (b : Bool)
  | mask (m : UInt8)
  | number (x : Binary32)
  | factor (f : BlendFactor)
  | equation (o : BlendOperation)
  | polygons (m : PolygonMode)
  | culling (m : CullingMode)
  | comparison (f : CompareFunction)
  | stencil (o : StencilOperation)
  | reference (n : UInt32)
  deriving DecidableEq

inductive TargetField
  | enable | source | dest | operation | sourceAlpha | destAlpha | operationAlpha | writeMask
  deriving DecidableEq

inductive BlendField
  | alphaToCoverage | independent
  | target (i : Fin targetCount) (f : TargetField)
  deriving DecidableEq

inductive RasterField
  | polygonMode | cullMode | depthBias | slopeScaledDepthBias | depthClip | scissor | multisample
  | antialiasedLine
  deriving DecidableEq

inductive FaceField
  | fail | depthFail | pass | compare
  deriving DecidableEq

inductive DepthStencilField
  | depthRead | depthWrite | depthCompare | stencilEnable | stencilReadMask | stencilWriteMask
  | front (f : FaceField) | back (f : FaceField)
  deriving DecidableEq

/-- A field of the states of a pass. -/
inductive Field
  | blend (f : BlendField)
  | raster (f : RasterField)
  | depthStencil (f : DepthStencilField)
  | stencilRef
  deriving DecidableEq

def TargetBlend.get (t : TargetBlend) : TargetField → FieldValue
  | .enable => .flag t.enable
  | .source => .factor t.source
  | .dest => .factor t.dest
  | .operation => .equation t.operation
  | .sourceAlpha => .factor t.sourceAlpha
  | .destAlpha => .factor t.destAlpha
  | .operationAlpha => .equation t.operationAlpha
  | .writeMask => .mask t.writeMask

def BlendState.get (b : BlendState) : BlendField → FieldValue
  | .alphaToCoverage => .flag b.alphaToCoverage
  | .independent => .flag b.independent
  | .target i f => b.targets[i].get f

def RasterState.get (r : RasterState) : RasterField → FieldValue
  | .polygonMode => .polygons r.polygonMode
  | .cullMode => .culling r.cullMode
  | .depthBias => .number r.depthBias
  | .slopeScaledDepthBias => .number r.slopeScaledDepthBias
  | .depthClip => .flag r.depthClip
  | .scissor => .flag r.scissor
  | .multisample => .flag r.multisample
  | .antialiasedLine => .flag r.antialiasedLine

def StencilFace.get (s : StencilFace) : FaceField → FieldValue
  | .fail => .stencil s.fail
  | .depthFail => .stencil s.depthFail
  | .pass => .stencil s.pass
  | .compare => .comparison s.compare

def DepthStencilState.get (d : DepthStencilState) : DepthStencilField → FieldValue
  | .depthRead => .flag d.depthRead
  | .depthWrite => .flag d.depthWrite
  | .depthCompare => .comparison d.depthCompare
  | .stencilEnable => .flag d.stencilEnable
  | .stencilReadMask => .mask d.stencilReadMask
  | .stencilWriteMask => .mask d.stencilWriteMask
  | .front f => d.front.get f
  | .back f => d.back.get f

/-- The value of a field. -/
def PassStates.get (p : PassStates) : Field → FieldValue
  | .blend f => p.blend.get f
  | .raster f => p.raster.get f
  | .depthStencil f => p.depthStencil.get f
  | .stencilRef => .reference p.stencilRef

/-! ## Writes -/

/-- Values written to fields, in order. -/
abbrev Writes (φ : Type) := List (φ × FieldValue)

namespace Writes

variable {φ ψ : Type} [DecidableEq φ] [DecidableEq ψ]

/-- The last value written to a field. -/
def last? (ws : Writes φ) (f : φ) : Option FieldValue :=
  (ws.reverse.find? (·.1 = f)).map (·.2)

/-- Writes to the fields of a part are writes to fields of the whole. -/
def within (part : φ → ψ) (ws : Writes φ) : Writes ψ := ws.map fun w => (part w.1, w.2)

@[simp] theorem last?_nil (f : φ) : last? [] f = none := rfl

theorem last?_append (ws ws' : Writes φ) (f : φ) :
    last? (ws ++ ws') f = (last? ws' f).or (last? ws f) := by
  simp only [last?, List.reverse_append, List.find?_append, Option.map_or]

theorem last?_within {part : φ → ψ} (h : Function.Injective part) (ws : Writes φ) (f : φ) :
    last? (ws.within part) (part f) = last? ws f := by
  simp only [last?, within, ← List.map_reverse, List.find?_map, Option.map_map,
    Function.comp_def, h.eq_iff]

omit [DecidableEq φ] in
theorem last?_within_of_ne {part : φ → ψ} {g : ψ} (h : ∀ f, part f ≠ g) (ws : Writes φ) :
    last? (ws.within part) g = none := by
  simp [last?, within, ← List.map_reverse, List.find?_map, Function.comp_def, h]

end Writes

variable {σ α φ : Type} [DecidableEq φ]

/-- A change of states only writes: fields that are written have their last value afterwards, and
all others the one they had. -/
def Overwrites (get : σ → φ → FieldValue) (change : σ → σ) (ws : Writes φ) : Prop :=
  ∀ s f, get (change s) f = (ws.last? f).getD (get s f)

namespace Overwrites

variable {get : σ → φ → FieldValue} {change next : σ → σ} {ws ws' : Writes φ}

theorem id : Overwrites get (fun s => s) [] := fun _ _ => rfl

theorem append (h : Overwrites get change ws) (h' : Overwrites get next ws') :
    Overwrites get (fun s => next (change s)) (ws ++ ws') := by
  intro s f
  rw [h', h, Writes.last?_append]
  cases ws'.last? f <;> rfl

/-- A row of changes that only write writes what they write, in order. -/
theorem foldl {step : σ → α → σ} {writes : α → Writes φ}
    (h : ∀ a, Overwrites get (step · a) (writes a)) (l : List α) :
    Overwrites get (l.foldl step) (l.flatMap writes) := by
  induction l with
  | nil => exact id
  | cons a l ih => exact (h a).append ih

/-- A change of one part of the states that only writes to the part. -/
theorem within {τ ψ : Type} [DecidableEq ψ] {whole : τ → ψ → FieldValue} {outer : τ → τ}
    {part : φ → ψ} (h : Overwrites get change ws) (of : τ → σ) (hpart : Function.Injective part)
    (hof : ∀ t f, whole t (part f) = get (of t) f) (houter : ∀ t, of (outer t) = change (of t))
    (hothers : ∀ t g, (∀ f, part f ≠ g) → whole (outer t) g = whole t g) :
    Overwrites whole outer (ws.within part) := by
  intro t g
  by_cases hg : ∃ f, part f = g
  · obtain ⟨f, rfl⟩ := hg
    rw [hof, hof, houter, h, Writes.last?_within hpart]
  · have hne : ∀ f, part f ≠ g := fun f heq => hg ⟨f, heq⟩
    rw [hothers t g hne, Writes.last?_within_of_ne hne, Option.getD_none]

end Overwrites

/-! ## Settings as writes -/

/-- What a setting of a blend equation writes. -/
def TargetBlend.equationWrites (color : Bool) (s : Setting Tree) : Writes TargetField :=
  match s.kind, s.value with
  | .source, .leaf (.operand o) =>
    [(if color then .source else .sourceAlpha, .factor (.ofOperand o))]
  | .destination, .leaf (.operand o) =>
    [(if color then .dest else .destAlpha, .factor (.ofOperand o))]
  | .operation, .leaf (.blendOp o) =>
    [(if color then .operation else .operationAlpha, .equation (.ofBlendOp o))]
  | _, _ => []

theorem TargetBlend.setEquation_overwrites (color : Bool) (s : Setting Tree) :
    Overwrites get (setEquation color · s) (equationWrites color s) := by
  obtain ⟨kind, value⟩ := s
  intro t f
  dsimp only [setEquation]
  split
  · cases color <;> cases f <;> rfl
  · cases color <;> cases f <;> rfl
  · cases color <;> cases f <;> rfl
  · simp only [equationWrites, Writes.last?_nil, Option.getD_none]

/-- What a setting of a render target writes. -/
def TargetBlend.writes (s : Setting Tree) : Writes TargetField :=
  match s.kind, s.value with
  | .enabled, v => [(.enable, .flag (v.bool?.getD false))]
  | .writeMask, v => [(.writeMask, .mask (Word.byte (v.int?.getD 0xF)))]
  | .color, .node equation => equation.declared.flatMap (equationWrites true)
  | .alpha, .node equation => equation.declared.flatMap (equationWrites false)
  | _, _ => []

theorem TargetBlend.set_overwrites (s : Setting Tree) :
    Overwrites get (set · s) (writes s) := by
  obtain ⟨kind, value⟩ := s
  intro t f
  dsimp only [set]
  split
  · cases f <;> rfl
  · cases f <;> rfl
  · exact Overwrites.foldl (setEquation_overwrites true) _ t f
  · exact Overwrites.foldl (setEquation_overwrites false) _ t f
  · simp only [writes, Writes.last?_nil, Option.getD_none]

namespace BlendState

/-- The running index behind a setting. -/
def nextTarget (running : Nat) (s : Setting Tree) : Nat :=
  match s.kind, s.value with
  | .target, .node statement =>
    let i := targetIndex statement running
    if i < targetCount then i + 1 else i
  | _, _ => running

/-- What a setting of a blend state writes. A target past the last one is not there. -/
def settingWrites (running : Nat) (s : Setting Tree) : Writes BlendField :=
  match s.kind, s.value with
  | .alphaToCoverage, v => [(.alphaToCoverage, .flag (v.bool?.getD false))]
  | .independentBlend, v => [(.independent, .flag (v.bool?.getD false))]
  | .target, .node statement =>
    if h : targetIndex statement running < targetCount then
      Writes.within (.target ⟨_, h⟩) (statement.declared.flatMap TargetBlend.writes)
    else []
  | _, _ => []

/-- What settings of a blend state write from a running index on. -/
def writesFrom : Nat → List (Setting Tree) → Writes BlendField
  | _, [] => []
  | running, s :: ss => settingWrites running s ++ writesFrom (nextTarget running s) ss

theorem setTarget_overwrites (running : Nat) (statement : Tree)
    (h : targetIndex statement running < targetCount) :
    Overwrites get (fun b => (setTarget b running statement).1)
      (Writes.within (.target ⟨_, h⟩) (statement.declared.flatMap TargetBlend.writes)) := by
  have hset : ∀ b : BlendState, (setTarget b running statement).1 = { b with
      targets := b.targets.set (targetIndex statement running)
        (statement.declared.foldl TargetBlend.set b.targets[targetIndex statement running]) } := by
    intro b
    simp only [setTarget, h, dif_pos]
  simp only [hset]
  -- The statement writes one target, and nothing beside it.
  refine (Overwrites.foldl TargetBlend.set_overwrites statement.declared).within
    (fun b => b.targets[targetIndex statement running]) (fun f g heq => ?_)
    (fun b f => rfl) (fun b => by simp) fun b g hg => ?_
  · exact (BlendField.target.inj heq).2
  · cases g with
    | alphaToCoverage | independent => rfl
    | target i g =>
      have hne : targetIndex statement running ≠ i := fun heq =>
        hg g (congrArg (BlendField.target · g) (Fin.ext heq))
      simp [get, hne]

theorem snd_set (b : BlendState) (running : Nat) (s : Setting Tree) :
    (set (b, running) s).2 = nextTarget running s := by
  obtain ⟨kind, value⟩ := s
  dsimp only [set]
  split
  · rfl
  · rfl
  · simp only [setTarget, nextTarget]
    split <;> rfl
  · simp only [nextTarget]

theorem set_overwrites (running : Nat) (s : Setting Tree) :
    Overwrites get (fun b => (set (b, running) s).1) (settingWrites running s) := by
  obtain ⟨kind, value⟩ := s
  intro b f
  dsimp only [set]
  split
  · cases f <;> rfl
  · cases f <;> rfl
  · next statement =>
    simp only [settingWrites]
    split
    · next h => exact setTarget_overwrites running statement h b f
    · next h => simp [setTarget, h]
  · simp only [settingWrites, Writes.last?_nil, Option.getD_none]

/-- A `blend` block counts its targets from zero whenever it is applied, so that it writes the same
each time. -/
theorem apply_overwrites (block : Tree) :
    Overwrites get (·.apply block) (writesFrom 0 block.declared) := by
  have hfrom : ∀ (ss : List (Setting Tree)) (running : Nat),
      Overwrites get (fun b => (ss.foldl set (b, running)).1) (writesFrom running ss) := by
    intro ss
    induction ss with
    | nil => exact fun _ => Overwrites.id
    | cons s ss ih =>
      intro running b f
      -- The setting moves the index as it would on any other state.
      have hpair : set (b, running) s = ((set (b, running) s).1, nextTarget running s) :=
        Prod.ext rfl (snd_set b running s)
      simp only [List.foldl_cons]
      rw [hpair]
      exact (set_overwrites running s).append (ih (nextTarget running s)) b f
  exact hfrom block.declared 0

end BlendState

/-- What a setting of the rasterizer state writes. -/
def RasterState.writes (s : Setting Tree) : Writes RasterField :=
  match s.kind, s.value with
  | .fillMode, .leaf (.fillMode m) => [(.polygonMode, .polygons (.ofFillMode m))]
  | .cullMode, .leaf (.cullAndQueue m) => [(.cullMode, .culling (.ofCullAndQueue m))]
  | .depthBias, v => [(.depthBias, .number (v.float?.getD .zero))]
  | .slopeScaledDepthBias, v => [(.slopeScaledDepthBias, .number (v.float?.getD .zero))]
  | .depthClip, v => [(.depthClip, .flag (v.bool?.getD false))]
  | .scissor, v => [(.scissor, .flag (v.bool?.getD false))]
  | .multisample, v => [(.multisample, .flag (v.bool?.getD false))]
  | .lineAntialiasing, v => [(.antialiasedLine, .flag (v.bool?.getD false))]
  | _, _ => []

theorem RasterState.set?_overwrites (s : Setting Tree) :
    Overwrites get (fun r => (r.set? s).getD r) (writes s) := by
  obtain ⟨kind, value⟩ := s
  intro r f
  dsimp only [set?]
  split
  case h_9 => simp only [writes, Writes.last?_nil, Option.getD_none]
  all_goals cases f <;> rfl

/-- What a setting of one side of the stencil test writes. -/
def StencilFace.writes (s : Setting Tree) : Writes FaceField :=
  match s.kind, s.value with
  | .fail, .leaf (.operand o) => [(.fail, .stencil (.ofOperand o))]
  | .depthFail, .leaf (.operand o) => [(.depthFail, .stencil (.ofOperand o))]
  | .passOp, .leaf (.operand o) => [(.pass, .stencil (.ofOperand o))]
  | .compareFunc, .leaf (.compareFunc c) => [(.compare, .comparison (.ofCompareFunc c))]
  | _, _ => []

theorem StencilFace.set_overwrites (s : Setting Tree) :
    Overwrites get (set · s) (writes s) := by
  obtain ⟨kind, value⟩ := s
  intro t f
  dsimp only [set]
  split
  case h_5 => simp only [writes, Writes.last?_nil, Option.getD_none]
  all_goals cases f <;> rfl

namespace DepthStencilState

/-- What a setting of the depth test writes. -/
def depthWrites (s : Setting Tree) : Writes DepthStencilField :=
  match s.kind, s.value with
  | .depthRead, v => [(.depthRead, .flag (v.bool?.getD false))]
  | .depthWrite, v => [(.depthWrite, .flag (v.bool?.getD false))]
  | .compareFunc, .leaf (.compareFunc c) => [(.depthCompare, .comparison (.ofCompareFunc c))]
  | _, _ => []

theorem setDepth?_overwrites (s : Setting Tree) :
    Overwrites get (fun d => (d.setDepth? s).getD d) (depthWrites s) := by
  obtain ⟨kind, value⟩ := s
  intro d f
  dsimp only [setDepth?]
  split
  · cases f <;> rfl
  · cases f <;> rfl
  · cases f <;> rfl
  · simp only [depthWrites, Writes.last?_nil, Option.getD_none]

/-- What a setting of the stencil test writes. -/
def stencilWrites (s : Setting Tree) : Writes DepthStencilField :=
  match s.kind, s.value with
  | .stencilEnabled, v => [(.stencilEnable, .flag (v.bool?.getD false))]
  | .stencilReadMask, v => [(.stencilReadMask, .mask (Word.byte (v.int?.getD 0xFF)))]
  | .stencilWriteMask, v => [(.stencilWriteMask, .mask (Word.byte (v.int?.getD 0xFF)))]
  | .stencilOpFront, .node op => Writes.within .front (op.declared.flatMap StencilFace.writes)
  | .stencilOpBack, .node op => Writes.within .back (op.declared.flatMap StencilFace.writes)
  | _, _ => []

theorem setStencil?_overwrites (s : Setting Tree) :
    Overwrites get (fun d => (d.setStencil? s).getD d) (stencilWrites s) := by
  obtain ⟨kind, value⟩ := s
  -- Two of the settings write a whole face, each of the others one field.
  have hface (op : Tree) := Overwrites.foldl StencilFace.set_overwrites op.declared
  have hfront (op : Tree) : Overwrites get
      (fun d => { d with front := op.declared.foldl StencilFace.set d.front })
      (Writes.within .front (op.declared.flatMap StencilFace.writes)) := by
    refine (hface op).within (·.front) (fun f g => DepthStencilField.front.inj) (fun d f => rfl)
      (fun d => rfl) fun d g hg => ?_
    cases g with
    | front g => exact absurd rfl (hg g)
    | _ => rfl
  have hback (op : Tree) : Overwrites get
      (fun d => { d with back := op.declared.foldl StencilFace.set d.back })
      (Writes.within .back (op.declared.flatMap StencilFace.writes)) := by
    refine (hface op).within (·.back) (fun f g => DepthStencilField.back.inj) (fun d f => rfl)
      (fun d => rfl) fun d g hg => ?_
    cases g with
    | back g => exact absurd rfl (hg g)
    | _ => rfl
  intro d f
  dsimp only [setStencil?]
  split
  case h_4 op => exact hfront op d f
  case h_5 op => exact hback op d f
  case h_6 => simp only [stencilWrites, Writes.last?_nil, Option.getD_none]
  all_goals cases f <;> rfl

end DepthStencilState

/-! ## Blocks and bodies as writes -/

/-- What a statement of a `stencil` block writes. -/
def Setting.stencilWrites (s : Setting Tree) : Writes Field :=
  match s.kind with
  | .stencilRef => [(.stencilRef, .reference (Word.half (s.value.int?.getD 0)))]
  | _ => (DepthStencilState.stencilWrites s).within .depthStencil

/-- What a state block writes. -/
def Setting.stateWrites (s : Setting Tree) : Writes Field :=
  match s.kind, s.value with
  | .blend, .node block => Writes.within .blend (BlendState.writesFrom 0 block.declared)
  | .raster, .node block =>
    block.declared.flatMap fun s => (RasterState.writes s).within .raster
  | .depth, .node block =>
    block.declared.flatMap fun s => (DepthStencilState.depthWrites s).within .depthStencil
  | .stencil, .node block => block.declared.flatMap stencilWrites
  | _, _ => []

/-- What the state blocks of a body write. -/
def Tree.stateWrites (body : Tree) : Writes Field := body.declared.flatMap Setting.stateWrites

namespace PassData

/-- The value of a field of the states of a pass. -/
abbrev get (p : PassData) : Field → FieldValue := p.toPassStates.get

theorem setBlend_overwrites (block : Tree) :
    Overwrites get (·.setBlend block)
      (Writes.within .blend (BlendState.writesFrom 0 block.declared)) := by
  refine (BlendState.apply_overwrites block).within (·.blend) (fun f g => Field.blend.inj)
    (fun p f => rfl) (fun p => rfl) fun p g hg => ?_
  cases g with
  | blend g => exact absurd rfl (hg g)
  | _ => rfl

theorem setRaster_overwrites (s : Setting Tree) :
    Overwrites get (·.setRaster s) ((RasterState.writes s).within .raster) := by
  refine (RasterState.set?_overwrites s).within (·.raster) (fun f g => Field.raster.inj)
    (fun p f => rfl) (fun p => ?_) fun p g hg => ?_
  · rw [setRaster]
    split <;> simp_all
  · rw [setRaster]
    split
    · cases g with
      | raster g => exact absurd rfl (hg g)
      | _ => rfl
    · rfl

theorem setDepth_overwrites (s : Setting Tree) :
    Overwrites get (·.setDepth s) ((DepthStencilState.depthWrites s).within .depthStencil) := by
  refine (DepthStencilState.setDepth?_overwrites s).within (·.depthStencil)
    (fun f g => Field.depthStencil.inj) (fun p f => rfl) (fun p => ?_) fun p g hg => ?_
  · rw [setDepth]
    split <;> simp_all
  · rw [setDepth]
    split
    · cases g with
      | depthStencil g => exact absurd rfl (hg g)
      | _ => rfl
    · rfl

/-- A statement of a `stencil` block that is not about the reference value. -/
theorem setStencil?_overwrites (s : Setting Tree) :
    Overwrites get
      (fun p : PassData => { p with
        depthStencil := (p.depthStencil.setStencil? s).getD p.depthStencil })
      ((DepthStencilState.stencilWrites s).within .depthStencil) := by
  refine (DepthStencilState.setStencil?_overwrites s).within (·.depthStencil)
    (fun f g => Field.depthStencil.inj) (fun p f => rfl) (fun p => rfl) fun p g hg => ?_
  cases g with
  | depthStencil g => exact absurd rfl (hg g)
  | _ => rfl

theorem setStencil_overwrites (s : Setting Tree) :
    Overwrites get (·.setStencil s) s.stencilWrites := by
  obtain ⟨kind, value⟩ := s
  intro p f
  dsimp only [setStencil]
  split
  · cases f <;> rfl
  · next hkind =>
    have hwrites : Setting.stencilWrites ⟨kind, value⟩ =
        (DepthStencilState.stencilWrites ⟨kind, value⟩).within .depthStencil := by
      simp only [Setting.stencilWrites]
    rw [hwrites, ← setStencil?_overwrites ⟨kind, value⟩ p f]
    split
    · next h => cases f <;> simp [get, PassStates.get, h]
    · next h => simp [h]

theorem applyState_overwrites (s : Setting Tree) :
    Overwrites get (·.applyState s) s.stateWrites := by
  obtain ⟨kind, value⟩ := s
  intro p f
  dsimp only [applyState]
  split
  · exact setBlend_overwrites _ p f
  · exact Overwrites.foldl setRaster_overwrites _ p f
  · exact Overwrites.foldl setDepth_overwrites _ p f
  · exact Overwrites.foldl setStencil_overwrites _ p f
  · simp only [Setting.stateWrites, Writes.last?_nil, Option.getD_none]

/-- The state blocks of a body only write. -/
theorem applyStates_overwrites (body : Tree) :
    Overwrites get (·.applyStates body) body.stateWrites :=
  Overwrites.foldl applyState_overwrites body.declared

theorem applyStatement_overwrites (d : Document) (s : Setting Tree) :
    Overwrites get (·.applyStatement d s) s.stateWrites := by
  obtain ⟨kind, value⟩ := s
  intro p f
  dsimp only [applyStatement]
  split
  · rfl
  · exact applyState_overwrites _ p f

/-- A `pass` statement writes what its state blocks write. -/
theorem applyBody_overwrites (d : Document) (body : Tree) :
    Overwrites get (·.applyBody d body) body.stateWrites :=
  Overwrites.foldl (applyStatement_overwrites d) body.declared

end PassData
end ShaderLang
