import ShaderLang.Tree.Choice
import ShaderLang.Number.Binary32
/-!
# Render states

The fixed function state that a pass is drawn with: blending, rasterization, and the depth and
stencil tests. The words of a description are mapped onto these states here.

## Main definitions

* `BlendState`, `TargetBlend` — blending, for each of eight render targets
* `RasterState` — rasterization
* `DepthStencilState`, `StencilFace` — the depth test and the stencil test
* `PassStates` — all states of a pass
-/

namespace ShaderLang

inductive BlendFactor
  | one | zero | destColor | sourceColor | invDestColor | invSourceColor
  | destAlpha | sourceAlpha | invDestAlpha | invSourceAlpha
  deriving DecidableEq, Inhabited

inductive BlendOperation
  | add | subtract | reverseSubtract | min | max
  deriving DecidableEq, Inhabited

inductive StencilOperation
  | keep | zero | replace | increment | decrement | incrementWrap | decrementWrap | inverse
  deriving DecidableEq, Inhabited

inductive CompareFunction
  | alwaysFail | alwaysPass | less | lessEqual | equal | notEqual | greaterEqual | greater
  deriving DecidableEq, Inhabited

inductive PolygonMode
  | wireframe | solid
  deriving DecidableEq, Inhabited

inductive CullingMode
  | none | clockwise | counterClockwise
  deriving DecidableEq, Inhabited

inductive QueueSortType
  | none | frontToBack | backToFront
  deriving DecidableEq, Inhabited

/-! ## The meaning of the words -/

/-- An operand that is no blend factor counts as one. -/
def BlendFactor.ofOperand : Operand → BlendFactor
  | .zero => zero
  | .dstRgb => destColor
  | .srcRgb => sourceColor
  | .dstIRgb => invDestColor
  | .srcIRgb => invSourceColor
  | .dstA => destAlpha
  | .srcA => sourceAlpha
  | .dstIA => invDestAlpha
  | .srcIA => invSourceAlpha
  | _ => one

def BlendOperation.ofBlendOp : BlendOp → BlendOperation
  | .add => add
  | .sub => subtract
  | .rSub => reverseSubtract
  | .min => min
  | .max => max

/-- An operand that is no stencil operation keeps the buffer. -/
def StencilOperation.ofOperand : Operand → StencilOperation
  | .zero => zero
  | .replace => replace
  | .inc => increment
  | .dec => decrement
  | .incWrap => incrementWrap
  | .decWrap => decrementWrap
  | .inverse => inverse
  | _ => keep

def CompareFunction.ofCompareFunc : CompareFunc → CompareFunction
  | .never => alwaysFail
  | .always => alwaysPass
  | .lt => less
  | .lte => lessEqual
  | .eq => equal
  | .neq => notEqual
  | .gte => greaterEqual
  | .gt => greater

def PolygonMode.ofFillMode : FillMode → PolygonMode
  | .wire => wireframe
  | .solid => solid

/-- The words that sort a queue cull counter-clockwise faces. -/
def CullingMode.ofCullAndQueue : CullAndQueue → CullingMode
  | .none => none
  | .cw => clockwise
  | _ => counterClockwise

/-- The words that cull faces do not sort a queue. -/
def QueueSortType.ofCullAndQueue : CullAndQueue → QueueSortType
  | .frontToBack => frontToBack
  | .backToFront => backToFront
  | _ => none

/-! ## The states -/

/-- How the output for one render target is blended with what is there. -/
structure TargetBlend where
  enable : Bool
  source : BlendFactor
  dest : BlendFactor
  operation : BlendOperation
  sourceAlpha : BlendFactor
  destAlpha : BlendFactor
  operationAlpha : BlendOperation
  writeMask : UInt8
  deriving DecidableEq

/-- The output replaces what is there, in all channels. -/
def TargetBlend.standard : TargetBlend := ⟨false, .one, .zero, .add, .one, .zero, .add, 0xF⟩

instance : Inhabited TargetBlend := ⟨.standard⟩

/-- The number of render targets. -/
def targetCount : Nat := 8

/-- Blending, for every render target. -/
structure BlendState where
  alphaToCoverage : Bool
  independent : Bool
  targets : Vector TargetBlend targetCount
  deriving DecidableEq

def BlendState.standard : BlendState := ⟨false, false, .replicate targetCount .standard⟩

instance : Inhabited BlendState := ⟨.standard⟩

/-- Rasterization. -/
structure RasterState where
  polygonMode : PolygonMode
  cullMode : CullingMode
  depthBias : Binary32
  slopeScaledDepthBias : Binary32
  depthClip : Bool
  scissor : Bool
  multisample : Bool
  antialiasedLine : Bool
  deriving DecidableEq

def RasterState.standard : RasterState :=
  ⟨.solid, .counterClockwise, .zero, .zero, true, false, true, false⟩

instance : Inhabited RasterState := ⟨.standard⟩

/-- The stencil test on one side of a face. -/
structure StencilFace where
  fail : StencilOperation
  depthFail : StencilOperation
  pass : StencilOperation
  compare : CompareFunction
  deriving DecidableEq

def StencilFace.standard : StencilFace := ⟨.keep, .keep, .keep, .alwaysPass⟩

instance : Inhabited StencilFace := ⟨.standard⟩

/-- The depth test and the stencil test. -/
structure DepthStencilState where
  depthRead : Bool
  depthWrite : Bool
  depthCompare : CompareFunction
  stencilEnable : Bool
  stencilReadMask : UInt8
  stencilWriteMask : UInt8
  front : StencilFace
  back : StencilFace
  deriving DecidableEq

def DepthStencilState.standard : DepthStencilState :=
  ⟨true, true, .less, false, 0xFF, 0xFF, .standard, .standard⟩

instance : Inhabited DepthStencilState := ⟨.standard⟩

/-- All states of a pass. -/
structure PassStates where
  blend : BlendState
  raster : RasterState
  depthStencil : DepthStencilState
  /-- No statement has set anything of the blend state; the next two say the same of theirs. -/
  blendIsDefault : Bool
  rasterIsDefault : Bool
  depthStencilIsDefault : Bool
  /-- The reference value of the stencil test. -/
  stencilRef : UInt32
  deriving DecidableEq

/-- The states of a pass that nothing has been said of. -/
def PassStates.standard : PassStates := ⟨.standard, .standard, .standard, true, true, true, 0⟩

instance : Inhabited PassStates := ⟨.standard⟩

end ShaderLang
