import ShaderLang.Param.Table
import ShaderLang.Reflection
/-!
# Registration

The parameters that a program declares, entered into the tables of its shader. What is marked
internal, or lies in a block marked so, is no parameter.

## Main definitions

* `structSize` — the bytes of a struct
* `Params.registerUniform` — one declared uniform
* `Params.register` — all that a program declares
-/

namespace ShaderLang

/-! ## Types -/

/-- The parameter type of a texture; other buffers have none. -/
def BufferType.textureType? : BufferType → Option ObjectParamType
  | .rwTexture1D => some .rwTexture1D
  | .rwTexture1DArray => some .rwTexture1DArray
  | .rwTexture2D => some .rwTexture2D
  | .rwTexture2DArray => some .rwTexture2DArray
  | .rwTexture3D => some .rwTexture3D
  | .texture1D => some .texture1D
  | .texture1DArray => some .texture1DArray
  | .texture2D => some .texture2D
  | .texture2DArray => some .texture2DArray
  | .texture3D => some .texture3D
  | .textureCube => some .textureCube
  | .textureCubeArray => some .textureCubeArray
  | .texture2DMS => some .texture2DMS
  | .texture2DMSArray => some .texture2DMSArray
  | _ => none

/-- The parameter type of a buffer. -/
def BufferType.storageType : BufferType → ObjectParamType
  | .buffer | .rwBuffer => .rwTypedBuffer
  | .structuredBuffer => .structuredBuffer
  | .byteAddressBuffer => .byteBuffer
  | .rwStructuredBuffer => .rwStructuredBuffer
  | .rwByteAddressBuffer => .rwByteBuffer
  | .appendStructuredBuffer => .rwAppendBuffer
  | .consumeStructuredBuffer => .rwConsumeBuffer
  | _ => .unknown

/-- The parameter type of a variable. There is none of three rows and two columns, so such a
matrix takes the next wider one. -/
def DataType.paramType : DataType → DataParamType
  | .bool => .bool
  | .float => .float1
  | .float2 => .float2
  | .float3 => .float3
  | .float4 => .float4
  | .int | .uInt => .int1
  | .int2 | .uInt2 => .int2
  | .int3 | .uInt3 => .int3
  | .int4 | .uInt4 => .int4
  | .float2x2 => .matrix2x2
  | .float2x3 => .matrix2x3
  | .float2x4 => .matrix2x4
  | .float3x2 => .matrix3x4
  | .float3x3 => .matrix3x3
  | .float3x4 => .matrix3x4
  | .float4x2 => .matrix4x2
  | .float4x3 => .matrix4x3
  | .float4x4 => .matrix4x4
  | .other => .unknown

/-- The bytes of a struct without padding, looking into structs at most `depth` deep, cut to 32
bits. The array size of a member that is itself a struct does not count. -/
def structSizeTo (structs : List StructInfo) : Nat → Nat → Nat
  | 0, _ => 0
  | depth + 1, index =>
    match structs[index]? with
    | none => 0
    | some info =>
      let sizes := info.members.map fun m =>
        match m.kind with
        | .variable type => Word.wrap (type.paramType.size * m.arraySize)
        | .struct i => structSizeTo structs depth i
      sizes.foldr (fun a b => Word.wrap (a + b)) 0

/-- The bytes of a struct without padding. Structs that do not hold themselves are never nested
deeper than there are structs. -/
def structSize (structs : List StructInfo) (index : Nat) : Nat :=
  structSizeTo structs (structs.length + 1) index

/-! ## Sampler states -/

/-- Mirroring once counts as mirroring. -/
def AddressMode.addressing : AddressMode → TextureAddressing
  | .border => .border
  | .clamp => .clamp
  | .mirror | .mirrorOnce => .mirror
  | .wrap => .wrap

/-- The filters for minifying, magnifying and between mip levels. -/
def Filter.options : Filter → FilterOption × FilterOption × FilterOption
  | .minMagMipPoint => (.point, .point, .point)
  | .minMagPointMipLinear => (.point, .point, .linear)
  | .minPointMagLinearMipPoint => (.point, .linear, .point)
  | .minPointMagMipLinear => (.point, .linear, .linear)
  | .minLinearMagMipPoint => (.linear, .point, .point)
  | .minLinearMagPointMipLinear => (.linear, .point, .linear)
  | .minMagLinearMipPoint => (.linear, .linear, .point)
  | .minMagMipLinear => (.linear, .linear, .linear)
  | .anisotropic => (.anisotropic, .anisotropic, .anisotropic)

/-- The state that a sampler starts with. -/
def SamplerState.desc (s : SamplerState) : SamplerDesc where
  addressU := s.addressU.addressing
  addressV := s.addressV.addressing
  addressW := s.addressW.addressing
  border := s.border
  compare := s.compare
  maxAnisotropy := s.maxAnisotropy
  mipMin := s.minLod
  mipMax := s.maxLod
  mipBias := s.lodBias
  minFilter := s.filter.options.1
  magFilter := s.filter.options.2.1
  mipFilter := s.filter.options.2.2

/-! ## Uniforms -/

/-- The variable lies in a constant buffer that is marked internal. -/
def Reflection.isBlockInternal (r : Reflection) (u : Uniform) : Bool :=
  match u.block?.bind fun i => r.constantBuffers[i]? with
  | none => false
  | some block =>
    match r.uniforms.find? fun v => v.kind = .uniformBuffer && v.ident == block.ident with
    | none => false
    | some v => v.marks.internal

/-- The parameter type of a variable; three or four numbers marked as a color are one. -/
def Uniform.paramType (u : Uniform) (type : DataType) : DataParamType :=
  let t := type.paramType
  if u.marks.color && (t = .float3 || t = .float4) then .color else t

namespace Params

/-- The attributes that data and textures share. -/
def addCommonAttributes (p : Params) (u : Uniform) : Params :=
  let p := if u.shownName.isEmpty then p else p.addAttribute u.ident (.name u.shownName)
  let p := if u.marks.hidden then p.addAttribute u.ident .hideInInspector else p
  if u.marks.hdr then p.addAttribute u.ident .hdr else p

/-- The bytes of a default, no more than its type has; an unknown type cuts nothing. -/
def defaultBytes (type : DataParamType) (v : DefaultValue) : List UInt8 :=
  if 0 < type.size then v.bytes.take type.size else v.bytes

/-- A variable. -/
def registerVariable (r : Reflection) (strict : Bool) (p : Params) (u : Uniform)
    (type : DataType) : Except CompileError Params :=
  if r.isBlockInternal u then .ok p
  else do
    let t := u.paramType type
    let (p, added) ← p.addData strict u.ident
      ⟨u.ident, t, u.arraySize, 0, (r.defaultOf? u).map (defaultBytes t)⟩
    if added then
      let p := if !u.spriteUV.isEmpty && t = .float4 then
          p.addAttribute u.ident (.spriteUV u.spriteUV)
        else p
      return p.addCommonAttributes u
    else return p

/-- A texture or a storage buffer. -/
def registerBuffer (r : Reflection) (strict : Bool) (p : Params) (u : Uniform)
    (type : BufferType) : Except CompileError Params := do
  let (p, added) ← match type.textureType? with
    | some t =>
      let builtin := (r.defaultOf? u).bind fun v => BuiltinTexture.ofIndex? v.integer
      p.addTexture strict u.ident ⟨u.ident, t, builtin⟩
    | none => p.addBuffer strict u.ident ⟨u.ident, type.storageType⟩
  return if added then p.addCommonAttributes u else p

/-- A sampler. One with a second name is known under both, unless its own name is taken. -/
def registerSampler (r : Reflection) (p : Params) (u : Uniform) : Params :=
  match r.samplers.get? u.ident with
  | none => (p.addSampler u.ident ⟨u.ident, none⟩).1
  | some state =>
    if p.samplers.contains u.ident then p
    else
      let param := ⟨u.ident, if state.nonDefault then some state.desc else none⟩
      let p :=
        if state.secondName.isEmpty then p else (p.addSampler state.secondName param).1
      (p.addSampler u.ident param).1

/-- One declared uniform. One that cannot be registered leaves the tables as they are. -/
def registerUniform (r : Reflection) (strict : Bool) (p : Params) (u : Uniform) :
    Except CompileError Params :=
  if u.marks.internal then .ok p
  else
    match u.kind with
    | .uniformBuffer => .ok (p.addBlock u.ident ⟨false, .static⟩)
    | .buffer type => registerBuffer r strict p u type
    | .sampler => .ok (registerSampler r p u)
    | .variable type => registerVariable r strict p u type
    | .struct index => do
      let (p, _) ← p.addData strict u.ident
        ⟨u.ident, .struct, u.arraySize, structSize r.structs index, none⟩
      return p

/-- Registers uniforms up to the first that cannot be, and gives the tables and the error. -/
def registerAll (r : Reflection) (strict : Bool) :
    Params → List Uniform → Params × Option CompileError
  | p, [] => (p, none)
  | p, u :: us =>
    match registerUniform r strict p u with
    | .ok p' => registerAll r strict p' us
    | .error e => (p, some e)

/-- Registers all that a program declares. The tables are given also when there is an error. -/
def register (p : Params) (strict : Bool) (r : Reflection) : Params × Option CompileError :=
  registerAll r strict p r.uniforms

end Params
end ShaderLang
