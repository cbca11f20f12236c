import ShaderLang.Binary.Layout
import ShaderLang.Shader
/-!
# The binary form of shaders

Shaders as rows of bytes, field behind field. Nothing is left out and nothing marks an end, so a
shader can be read from the front of a row.

## Main definitions

* `Pass.layout`, `Params.layout`, `Technique.layout` — the layouts of the parts
* `Shader.layoutTo` — shaders whose sub-shaders are nested up to a depth
* `Shader.toBytes`, `Shader.ofBytes?` — writes a shader, and reads one
-/

namespace ShaderLang

/-! ## Alternatives, in the order of their numbers -/

def BlendFactor.layout : Layout BlendFactor :=
  .oneOf [.one, .zero, .destColor, .sourceColor, .invDestColor, .invSourceColor, .destAlpha,
    .sourceAlpha, .invDestAlpha, .invSourceAlpha]

def BlendOperation.layout : Layout BlendOperation :=
  .oneOf [.add, .subtract, .reverseSubtract, .min, .max]

def StencilOperation.layout : Layout StencilOperation :=
  .oneOf [.keep, .zero, .replace, .increment, .decrement, .incrementWrap, .decrementWrap, .inverse]

def CompareFunction.layout : Layout CompareFunction :=
  .oneOf [.alwaysFail, .alwaysPass, .less, .lessEqual, .equal, .notEqual, .greaterEqual, .greater]

def PolygonMode.layout : Layout PolygonMode := .oneOf [.wireframe, .solid]

def CullingMode.layout : Layout CullingMode := .oneOf [.none, .clockwise, .counterClockwise]

def QueueSortType.layout : Layout QueueSortType := .oneOf [.none, .frontToBack, .backToFront]

def Stage.layout : Layout Stage := .oneOf all

def Language.layout : Layout Language := .oneOf [.hlsl, .glsl, .glsl41, .vksl, .mvksl]

def DataParamType.layout : Layout DataParamType :=
  .oneOf [.float1, .float2, .float3, .float4, .int1, .int2, .int3, .int4, .bool,
    .matrix2x2, .matrix2x3, .matrix2x4, .matrix3x3, .matrix3x4, .matrix4x2, .matrix4x3, .matrix4x4,
    .color, .struct, .unknown]

def ObjectParamType.layout : Layout ObjectParamType :=
  .oneOf [.texture1D, .texture1DArray, .texture2D, .texture2DArray, .texture3D,
    .textureCube, .textureCubeArray, .texture2DMS, .texture2DMSArray,
    .rwTexture1D, .rwTexture1DArray, .rwTexture2D, .rwTexture2DArray, .rwTexture3D,
    .sampler2D, .rwTypedBuffer, .structuredBuffer, .byteBuffer,
    .rwStructuredBuffer, .rwByteBuffer, .rwAppendBuffer, .rwConsumeBuffer, .unknown]

def BuiltinTexture.layout : Layout BuiltinTexture := .oneOf [.white, .black, .normal]

def TextureAddressing.layout : Layout TextureAddressing := .oneOf [.wrap, .mirror, .clamp, .border]

def FilterOption.layout : Layout FilterOption := .oneOf [.point, .linear, .anisotropic]

def BufferUsage.layout : Layout BufferUsage := .oneOf [.static, .dynamic]

/-! ## States -/

/-- The bits of a number. -/
def Binary32.layout : Layout Binary32 := Layout.word.via (·.bits) (⟨·⟩)

def TargetBlend.layout : Layout TargetBlend :=
  (Layout.bool.pair <| BlendFactor.layout.pair <| BlendFactor.layout.pair <|
    BlendOperation.layout.pair <| BlendFactor.layout.pair <| BlendFactor.layout.pair <|
    BlendOperation.layout.pair Layout.byte).via
    (fun t => (t.enable, t.source, t.dest, t.operation, t.sourceAlpha, t.destAlpha,
      t.operationAlpha, t.writeMask))
    fun (enable, source, dest, operation, alphaSource, alphaDest, alphaOperation, writeMask) =>
      ⟨enable, source, dest, operation, alphaSource, alphaDest, alphaOperation, writeMask⟩

def BlendState.layout : Layout BlendState :=
  (Layout.bool.pair <| Layout.bool.pair <| TargetBlend.layout.vector targetCount).via
    (fun b => (b.alphaToCoverage, b.independent, b.targets))
    fun (alphaToCoverage, independent, targets) => ⟨alphaToCoverage, independent, targets⟩

def RasterState.layout : Layout RasterState :=
  (PolygonMode.layout.pair <| CullingMode.layout.pair <| Binary32.layout.pair <|
    Binary32.layout.pair <| Layout.bool.pair <| Layout.bool.pair <|
    Layout.bool.pair Layout.bool).via
    (fun r => (r.polygonMode, r.cullMode, r.depthBias, r.slopeScaledDepthBias, r.depthClip,
      r.scissor, r.multisample, r.antialiasedLine))
    fun (polygonMode, cullMode, depthBias, slope, depthClip, scissor, multisample, line) =>
      ⟨polygonMode, cullMode, depthBias, slope, depthClip, scissor, multisample, line⟩

def StencilFace.layout : Layout StencilFace :=
  (StencilOperation.layout.pair <| StencilOperation.layout.pair <|
    StencilOperation.layout.pair CompareFunction.layout).via
    (fun f => (f.fail, f.depthFail, f.pass, f.compare))
    fun (fail, depthFail, pass, compare) => ⟨fail, depthFail, pass, compare⟩

def DepthStencilState.layout : Layout DepthStencilState :=
  (Layout.bool.pair <| Layout.bool.pair <| CompareFunction.layout.pair <| Layout.bool.pair <|
    Layout.byte.pair <| Layout.byte.pair <| StencilFace.layout.pair StencilFace.layout).via
    (fun d => (d.depthRead, d.depthWrite, d.depthCompare, d.stencilEnable, d.stencilReadMask,
      d.stencilWriteMask, d.front, d.back))
    fun (depthRead, depthWrite, depthCompare, enable, readMask, writeMask, front, back) =>
      ⟨depthRead, depthWrite, depthCompare, enable, readMask, writeMask, front, back⟩

def PassStates.layout : Layout PassStates :=
  (BlendState.layout.pair <| RasterState.layout.pair <| DepthStencilState.layout.pair <|
    Layout.bool.pair <| Layout.bool.pair <| Layout.bool.pair Layout.word).via
    (fun p => (p.blend, p.raster, p.depthStencil, p.blendIsDefault, p.rasterIsDefault,
      p.depthStencilIsDefault, p.stencilRef))
    fun (blend, raster, depthStencil, blendDefault, rasterDefault, depthDefault, stencilRef) =>
      ⟨blend, raster, depthStencil, blendDefault, rasterDefault, depthDefault, stencilRef⟩

/-! ## Techniques -/

def GpuProgram.layout : Layout GpuProgram :=
  (Stage.layout.pair <| Language.layout.pair <| Layout.text.pair Layout.text).via
    (fun p => (p.stage, p.language, p.entryPoint, p.source))
    fun (stage, language, entryPoint, source) => ⟨stage, language, entryPoint, source⟩

def Pass.layout : Layout Pass :=
  (PassStates.layout.pair GpuProgram.layout.list).via (fun p => (p.toPassStates, p.programs))
    fun (states, programs) => ⟨states, programs⟩

def Technique.layout : Layout Technique :=
  (Language.layout.pair <| Layout.text.list.pair <| Layout.integer.table.pair Pass.layout.list).via
    (fun t => (t.language, t.tags, t.variation, t.passes))
    fun (language, tags, variation, passes) => ⟨language, tags, variation, passes⟩

/-! ## Parameters -/

def DataParam.layout : Layout DataParam :=
  (Layout.text.pair <| DataParamType.layout.pair <| (Layout.natural 4).pair <|
    (Layout.natural 4).pair Layout.bytes.option).via
    (fun p => (p.gpuName, p.type, p.arraySize, p.elementSize, p.default?))
    fun (gpuName, type, arraySize, elementSize, default?) =>
      ⟨gpuName, type, arraySize, elementSize, default?⟩

def TextureParam.layout : Layout TextureParam :=
  (Layout.text.pair <| ObjectParamType.layout.pair BuiltinTexture.layout.option).via
    (fun p => (p.gpuName, p.type, p.default?)) fun (gpuName, type, default?) =>
      ⟨gpuName, type, default?⟩

def SamplerDesc.layout : Layout SamplerDesc :=
  (TextureAddressing.layout.pair <| TextureAddressing.layout.pair <|
    TextureAddressing.layout.pair <| (Binary32.layout.vector 4).pair <|
    CompareFunction.layout.pair <| (Layout.natural 4).pair <| Binary32.layout.pair <|
    Binary32.layout.pair <| Binary32.layout.pair <| FilterOption.layout.pair <|
    FilterOption.layout.pair FilterOption.layout).via
    (fun s => (s.addressU, s.addressV, s.addressW, s.border, s.compare, s.maxAnisotropy, s.mipMin,
      s.mipMax, s.mipBias, s.minFilter, s.magFilter, s.mipFilter))
    fun (u, v, w, border, compare, anisotropy, mipMin, mipMax, bias, minFilter, magFilter, mip) =>
      ⟨u, v, w, border, compare, anisotropy, mipMin, mipMax, bias, minFilter, magFilter, mip⟩

def SamplerParam.layout : Layout SamplerParam :=
  (Layout.text.pair SamplerDesc.layout.option).via (fun p => (p.gpuName, p.default?))
    fun (gpuName, default?) => ⟨gpuName, default?⟩

def BufferParam.layout : Layout BufferParam :=
  (Layout.text.pair ObjectParamType.layout).via (fun p => (p.gpuName, p.type))
    fun (gpuName, type) => ⟨gpuName, type⟩

def ParamBlock.layout : Layout ParamBlock :=
  (Layout.bool.pair BufferUsage.layout).via (fun b => (b.shared, b.usage))
    fun (shared, usage) => ⟨shared, usage⟩

namespace ParamAttribute

/-- The number of an attribute. -/
def tag : ParamAttribute → Nat
  | name _ => 0
  | hideInInspector => 1
  | hdr => 2
  | spriteUV _ => 3

/-- The text in an attribute. -/
def text : ParamAttribute → String
  | name s => s
  | spriteUV s => s
  | _ => ""

def layout : Layout ParamAttribute :=
  .tagged tag fun
    | 0 => some (Layout.text.via text name)
    | 1 => some (Layout.empty.via (fun _ => ()) fun _ => hideInInspector)
    | 2 => some (Layout.empty.via (fun _ => ()) fun _ => hdr)
    | 3 => some (Layout.text.via text spriteUV)
    | _ => none

end ParamAttribute

def Params.layout : Layout Params :=
  (DataParam.layout.table.pair <| TextureParam.layout.table.pair <|
    SamplerParam.layout.table.pair <| BufferParam.layout.table.pair <|
    ParamBlock.layout.table.pair ParamAttribute.layout.list.table).via
    (fun p => (p.data, p.textures, p.samplers, p.buffers, p.blocks, p.attributes))
    fun (data, textures, samplers, buffers, blocks, attributes) =>
      ⟨data, textures, samplers, buffers, blocks, attributes⟩

/-! ## Shaders -/

def ShaderOptions.layout : Layout ShaderOptions :=
  (Layout.bool.pair <| QueueSortType.layout.pair <| Layout.integer.pair <|
    Layout.bool.pair Layout.bool).via
    (fun o => (o.separable, o.sort, o.priority, o.transparent, o.forward))
    fun (separable, sort, priority, transparent, forward) =>
      ⟨separable, sort, priority, transparent, forward⟩

def VariationValue.layout : Layout VariationValue :=
  (Layout.text.pair Layout.integer).via (fun v => (v.name, v.value)) fun (name, value) =>
    ⟨name, value⟩

def VariationParam.layout : Layout VariationParam :=
  (Layout.text.pair <| Layout.text.pair <| Layout.bool.pair VariationValue.layout.list).via
    (fun p => (p.identifier, p.name, p.internal, p.values))
    fun (identifier, name, internal, values) => ⟨identifier, name, internal, values⟩

/-- A sub-shader whose shader is laid out in the given way. -/
def SubShader.layout (shader : Layout Shader) : Layout SubShader :=
  (Layout.text.pair shader).via (fun s => (s.name, s.shader)) fun (name, shader) => ⟨name, shader⟩

namespace Shader

/-- Shaders whose sub-shaders are nested at most so deep. -/
def layoutTo : Nat → Layout Shader
  | 0 => .void
  | depth + 1 =>
    (Layout.text.pair <| ShaderOptions.layout.pair <| Technique.layout.list.pair <|
      Params.layout.pair <| VariationParam.layout.list.pair <|
      (SubShader.layout (layoutTo depth)).list.pair Layout.text.list).via
      (fun s => (s.name, s.options, s.techniques, s.params, s.variationParams, s.subShaders,
        s.includes))
      fun (name, options, techniques, params, variationParams, subShaders, includes) =>
        ⟨name, options, techniques, params, variationParams, subShaders, includes⟩

/-- The bytes of a shader. -/
def toBytes (s : Shader) : List UInt8 := (layoutTo s.depth).write s

/-- The shader at the front of a row of bytes, and the bytes behind it. Each level of sub-shaders
takes bytes of its own, so no shader in the row is nested deeper than the row is long. -/
def ofBytes? (bytes : List UInt8) : Option (Shader × List UInt8) :=
  (layoutTo bytes.length).read? bytes

end Shader
end ShaderLang
