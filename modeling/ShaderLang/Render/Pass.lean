import ShaderLang.Document
import ShaderLang.Number.Word
import ShaderLang.Render.State
/-!
# Passes

The passes of a shader, put together from its own body and those of the mixins it inherits. Code
and states at the level of a body go to every pass; what a `pass` statement says of its own pass
has the last word.

## Main definitions

* `PassData` — a pass under construction
* `PassData.applyStates` — the state blocks of a body applied to a pass
* `PassSet` — the passes so far, with the `pass` statements that made them
* `PassSet.merge` — one more body merged in
-/

namespace ShaderLang

/-- A pass under construction. -/
structure PassData extends PassStates where
  /-- The number of the pass; passes are drawn in ascending order of it. -/
  index : Nat
  code : String
  deriving DecidableEq, Inhabited

namespace PassData

/-- A pass that nothing has been said of. -/
def fresh (index : Nat) : PassData := { PassStates.standard with index, code := "" }

end PassData

/-! ## Settings of a state -/

/-- A setting of a blend equation, for the color channels or for alpha. -/
def TargetBlend.setEquation (color : Bool) (t : TargetBlend) (s : Setting Tree) : TargetBlend :=
  match s.kind, s.value with
  | .source, .leaf (.operand o) =>
    if color then { t with source := .ofOperand o } else { t with sourceAlpha := .ofOperand o }
  | .destination, .leaf (.operand o) =>
    if color then { t with dest := .ofOperand o } else { t with destAlpha := .ofOperand o }
  | .operation, .leaf (.blendOp o) =>
    if color then { t with operation := .ofBlendOp o }
    else { t with operationAlpha := .ofBlendOp o }
  | _, _ => t

/-- A setting of a render target. -/
def TargetBlend.set (t : TargetBlend) (s : Setting Tree) : TargetBlend :=
  match s.kind, s.value with
  | .enabled, v => { t with enable := v.bool?.getD false }
  | .writeMask, v => { t with writeMask := Word.byte (v.int?.getD 0xF) }
  | .color, .node equation => equation.declared.foldl (setEquation true) t
  | .alpha, .node equation => equation.declared.foldl (setEquation false) t
  | _, _ => t

namespace BlendState

/-- The target that a `target` statement means: the one it names, negative numbers meaning the
first, or else the running one. -/
def targetIndex (statement : Tree) (running : Nat) : Nat :=
  match (statement.find? .index).bind Value.int? with
  | some n => n.toNat
  | none => running

/-- Applies a `target` statement. One past the last target says nothing and does not move the
running index. -/
def setTarget (b : BlendState) (running : Nat) (statement : Tree) : BlendState × Nat :=
  let i := targetIndex statement running
  if h : i < targetCount then
    let target := statement.declared.foldl TargetBlend.set b.targets[i]
    ({ b with targets := b.targets.set i target }, i + 1)
  else (b, i)

/-- A setting of a blend state, with the running index of its targets. -/
def set (acc : BlendState × Nat) (s : Setting Tree) : BlendState × Nat :=
  match s.kind, s.value with
  | .alphaToCoverage, v => ({ acc.1 with alphaToCoverage := v.bool?.getD false }, acc.2)
  | .independentBlend, v => ({ acc.1 with independent := v.bool?.getD false }, acc.2)
  | .target, .node statement => setTarget acc.1 acc.2 statement
  | _, _ => acc

/-- Settings that make a blend state other than default. -/
def isSetting (s : Setting Tree) : Bool :=
  s.kind = .alphaToCoverage || s.kind = .independentBlend || s.kind = .target

/-- Applies a `blend` block; its targets count from zero. -/
def apply (b : BlendState) (block : Tree) : BlendState := (block.declared.foldl set (b, 0)).1

end BlendState

/-- A setting of the rasterizer state, if it is one. -/
def RasterState.set? (r : RasterState) (s : Setting Tree) : Option RasterState :=
  match s.kind, s.value with
  | .fillMode, .leaf (.fillMode m) => some { r with polygonMode := .ofFillMode m }
  | .cullMode, .leaf (.cullAndQueue m) => some { r with cullMode := .ofCullAndQueue m }
  | .depthBias, v => some { r with depthBias := v.float?.getD .zero }
  | .slopeScaledDepthBias, v => some { r with slopeScaledDepthBias := v.float?.getD .zero }
  | .depthClip, v => some { r with depthClip := v.bool?.getD false }
  | .scissor, v => some { r with scissor := v.bool?.getD false }
  | .multisample, v => some { r with multisample := v.bool?.getD false }
  | .lineAntialiasing, v => some { r with antialiasedLine := v.bool?.getD false }
  | _, _ => none

/-- A setting of one side of the stencil test. -/
def StencilFace.set (f : StencilFace) (s : Setting Tree) : StencilFace :=
  match s.kind, s.value with
  | .fail, .leaf (.operand o) => { f with fail := .ofOperand o }
  | .depthFail, .leaf (.operand o) => { f with depthFail := .ofOperand o }
  | .passOp, .leaf (.operand o) => { f with pass := .ofOperand o }
  | .compareFunc, .leaf (.compareFunc c) => { f with compare := .ofCompareFunc c }
  | _, _ => f

/-- A setting of the depth test, if it is one. -/
def DepthStencilState.setDepth? (d : DepthStencilState) (s : Setting Tree) :
    Option DepthStencilState :=
  match s.kind, s.value with
  | .depthRead, v => some { d with depthRead := v.bool?.getD false }
  | .depthWrite, v => some { d with depthWrite := v.bool?.getD false }
  | .compareFunc, .leaf (.compareFunc c) => some { d with depthCompare := .ofCompareFunc c }
  | _, _ => none

/-- A setting of the stencil test, if it is one. The reference value is not part of the state. -/
def DepthStencilState.setStencil? (d : DepthStencilState) (s : Setting Tree) :
    Option DepthStencilState :=
  match s.kind, s.value with
  | .stencilEnabled, v => some { d with stencilEnable := v.bool?.getD false }
  | .stencilReadMask, v => some { d with stencilReadMask := Word.byte (v.int?.getD 0xFF) }
  | .stencilWriteMask, v => some { d with stencilWriteMask := Word.byte (v.int?.getD 0xFF) }
  | .stencilOpFront, .node op => some { d with front := op.declared.foldl StencilFace.set d.front }
  | .stencilOpBack, .node op => some { d with back := op.declared.foldl StencilFace.set d.back }
  | _, _ => none

/-! ## Statements on a pass -/

namespace PassData

/-- A statement of a `raster` block. -/
def setRaster (p : PassData) (s : Setting Tree) : PassData :=
  match p.raster.set? s with
  | some raster => { p with raster, rasterIsDefault := false }
  | none => p

/-- A statement of a `depth` block. -/
def setDepth (p : PassData) (s : Setting Tree) : PassData :=
  match p.depthStencil.setDepth? s with
  | some depthStencil => { p with depthStencil, depthStencilIsDefault := false }
  | none => p

/-- A statement of a `stencil` block. The reference value alone leaves the state default. -/
def setStencil (p : PassData) (s : Setting Tree) : PassData :=
  match s.kind with
  | .stencilRef => { p with stencilRef := Word.half (s.value.int?.getD 0) }
  | _ =>
    match p.depthStencil.setStencil? s with
    | some depthStencil => { p with depthStencil, depthStencilIsDefault := false }
    | none => p

/-- A `blend` block. -/
def setBlend (p : PassData) (block : Tree) : PassData :=
  { p with
    blend := p.blend.apply block
    blendIsDefault := p.blendIsDefault && !block.declared.any BlendState.isSetting }

/-- A state block, if the setting is one. -/
def applyState (p : PassData) (s : Setting Tree) : PassData :=
  match s.kind, s.value with
  | .blend, .node block => p.setBlend block
  | .raster, .node block => block.declared.foldl setRaster p
  | .depth, .node block => block.declared.foldl setDepth p
  | .stencil, .node block => block.declared.foldl setStencil p
  | _, _ => p

/-- The state blocks of a body, in the order in which they are written. -/
def applyStates (p : PassData) (body : Tree) : PassData := body.declared.foldl applyState p

/-- The pass with code behind its own. -/
def addCode (p : PassData) (code : String) : PassData := { p with code := p.code ++ code }

end PassData

/-- The text of a `code` statement. -/
def Document.codeOf (d : Document) (statement : Tree) : String :=
  (((statement.find? .index).bind Value.int?).bind (d.code? .code)).getD ""

namespace PassData

/-- A statement of a `pass` body. -/
def applyStatement (d : Document) (p : PassData) (s : Setting Tree) : PassData :=
  match s.kind, s.value with
  | .code, .node statement => p.addCode (d.codeOf statement)
  | _, _ => p.applyState s

/-- The body of a `pass` statement. -/
def applyBody (d : Document) (p : PassData) (body : Tree) : PassData :=
  body.declared.foldl (applyStatement d) p

end PassData

/-! ## Passes together -/

/-- The passes so far. -/
structure PassSet where
  featureSet : Option String
  passes : List PassData
  /-- The `pass` statements so far with the numbers of their passes, in the order of merging. -/
  explicit : List (Nat × Tree)
  deriving Inhabited

namespace PassSet

/-- Nothing has been merged. -/
def empty : PassSet := ⟨none, [], []⟩

/-- Changes the pass of a number. A missing one is made first, with the given code. -/
def change (index : Nat) (code : String) (f : PassData → PassData) : List PassData → List PassData
  | [] => [f { PassData.fresh index with code }]
  | p :: ps => if p.index = index then f p :: ps else p :: change index code f ps

/-- The state of a merge: the passes, the code of the body so far, and the number of a pass that
names none. -/
structure Merge where
  set : PassSet
  common : String
  next : Nat

/-- The number of the pass that a `pass` statement means: the one it names, negative numbers
meaning zero, or else one past all before it in the body. -/
def passIndex (statement : Tree) (next : Nat) : Nat :=
  match (statement.find? .index).bind Value.int? with
  | some n => n.toNat
  | none => next

/-- A statement of a body. Code goes to all passes there are, and is kept for those made later. -/
def Merge.statement (d : Document) (m : Merge) (s : Setting Tree) : Merge :=
  match s.kind, s.value with
  | .pass, .node statement =>
    let i := passIndex statement m.next
    { m with
      set := { m.set with
        passes := change i m.common (·.applyBody d statement) m.set.passes
        explicit := m.set.explicit ++ [(i, statement)] }
      next := max m.next i + 1 }
  | .code, .node statement =>
    let code := d.codeOf statement
    { m with
      set := { m.set with passes := m.set.passes.map (·.addCode code) }
      common := m.common ++ code }
  | .featureSet, v => { m with set := { m.set with featureSet := v.str? } }
  | _, _ => m

/-- Merges the body of a shader or a mixin. Its statements come first; then its states go to all
passes; then every `pass` statement so far applies its own states again. -/
def merge (d : Document) (set : PassSet) (body : Tree) : PassSet :=
  let passes := if set.passes.isEmpty then [PassData.fresh 0] else set.passes
  let merged := (body.declared.foldl (Merge.statement d) ⟨{ set with passes }, "", 0⟩).set
  let passes := merged.passes.map (·.applyStates body)
  { merged with
    passes := merged.explicit.foldl (fun ps e => change e.1 "" (·.applyStates e.2) ps) passes }

end PassSet
end ShaderLang
