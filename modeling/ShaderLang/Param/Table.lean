import ShaderLang.CompileError
import ShaderLang.Render.State
import ShaderLang.Table
/-!
# Shader parameters

The parameters of a shader by name: data, textures, samplers, buffers and blocks, and what editors
should know of them. The first registration of a name counts. A later one that differs in type is
passed over, or is an error when the registration is strict.

## Main definitions

* `DataParam`, `TextureParam`, `SamplerParam`, `BufferParam`, `ParamBlock`, `ParamAttribute` — what
  is known of a parameter
* `Params` — the tables
* `Params.addData`, `Params.addTexture`, `Params.addSampler`, `Params.addBuffer`,
  `Params.addBlock`, `Params.addAttribute` — registration
-/

namespace ShaderLang

/-- The type of a data parameter. A matrix type names its rows, then its columns. -/
inductive DataParamType
  | float1 | float2 | float3 | float4 | int1 | int2 | int3 | int4 | bool
  | matrix2x2 | matrix2x3 | matrix2x4 | matrix3x3 | matrix3x4 | matrix4x2 | matrix4x3 | matrix4x4
  | color | struct | unknown
  deriving DecidableEq, Inhabited

namespace DataParamType

/-- The name of a type in reports. -/
def name : DataParamType → String
  | float1 => "Float1"
  | float2 => "Float2"
  | float3 => "Float3"
  | float4 => "Float4"
  | int1 => "Int1"
  | int2 => "Int2"
  | int3 => "Int3"
  | int4 => "Int4"
  | bool => "Bool"
  | matrix2x2 => "Matrix2x2"
  | matrix2x3 => "Matrix2x3"
  | matrix2x4 => "Matrix2x4"
  | matrix3x3 => "Matrix3x3"
  | matrix3x4 => "Matrix3x4"
  | matrix4x2 => "Matrix4x2"
  | matrix4x3 => "Matrix4x3"
  | matrix4x4 => "Matrix4x4"
  | color => "Color"
  | struct => "Struct"
  | unknown => "Unknown"

/-- The number of scalars of a type; a struct and an unknown type count none. -/
def scalars : DataParamType → Nat
  | float1 | int1 | bool => 1
  | float2 | int2 => 2
  | float3 | int3 => 3
  | float4 | int4 | color => 4
  | matrix2x2 => 4
  | matrix2x3 => 6
  | matrix2x4 => 8
  | matrix3x3 => 9
  | matrix3x4 => 12
  | matrix4x2 => 8
  | matrix4x3 => 12
  | matrix4x4 => 16
  | struct | unknown => 0

/-- The bytes of one element. -/
def size (t : DataParamType) : Nat := 4 * t.scalars

end DataParamType

/-- The type of a texture or buffer parameter. -/
inductive ObjectParamType
  | texture1D | texture1DArray | texture2D | texture2DArray | texture3D
  | textureCube | textureCubeArray | texture2DMS | texture2DMSArray
  | rwTexture1D | rwTexture1DArray | rwTexture2D | rwTexture2DArray | rwTexture3D
  | sampler2D | rwTypedBuffer | structuredBuffer | byteBuffer
  | rwStructuredBuffer | rwByteBuffer | rwAppendBuffer | rwConsumeBuffer
  | unknown
  deriving DecidableEq, Inhabited

/-- The name of a type in reports. -/
def ObjectParamType.name : ObjectParamType → String
  | texture1D => "Texture1D"
  | texture1DArray => "Texture1DArray"
  | texture2D => "Texture2D"
  | texture2DArray => "Texture2DArray"
  | texture3D => "Texture3D"
  | textureCube => "TextureCube"
  | textureCubeArray => "TextureCubeArray"
  | texture2DMS => "Texture2DMS"
  | texture2DMSArray => "Texture2DMSArray"
  | rwTexture1D => "RWTexture1D"
  | rwTexture1DArray => "RWTexture1DArray"
  | rwTexture2D => "RWTexture2D"
  | rwTexture2DArray => "RWTexture2DArray"
  | rwTexture3D => "RWTexture3D"
  | sampler2D => "Sampler2D"
  | rwTypedBuffer => "RWTypedBuffer"
  | structuredBuffer => "StructuredBuffer"
  | byteBuffer => "ByteBuffer"
  | rwStructuredBuffer => "RWStructuredBuffer"
  | rwByteBuffer => "RWByteBuffer"
  | rwAppendBuffer => "RWAppendBuffer"
  | rwConsumeBuffer => "RWConsumeBuffer"
  | unknown => "Unknown"

/-- A texture that is always there. -/
inductive BuiltinTexture
  | white | black | normal
  deriving DecidableEq, Inhabited

/-- The built-in texture of a number. -/
def BuiltinTexture.ofIndex? : Int → Option BuiltinTexture
  | 1 => some white
  | 2 => some black
  | 3 => some normal
  | _ => none

inductive TextureAddressing
  | wrap | mirror | clamp | border
  deriving DecidableEq, Inhabited

inductive FilterOption
  | point | linear | anisotropic
  deriving DecidableEq, Inhabited

/-- The state that a sampler starts with. -/
structure SamplerDesc where
  addressU : TextureAddressing
  addressV : TextureAddressing
  addressW : TextureAddressing
  border : Vector Binary32 4
  compare : CompareFunction
  maxAnisotropy : Nat
  mipMin : Binary32
  mipMax : Binary32
  mipBias : Binary32
  minFilter : FilterOption
  magFilter : FilterOption
  mipFilter : FilterOption
  deriving DecidableEq

def SamplerDesc.standard : SamplerDesc where
  addressU := .wrap
  addressV := .wrap
  addressW := .wrap
  border := .replicate 4 .one
  compare := .alwaysPass
  maxAnisotropy := 0
  mipMin := .least
  mipMax := .greatest
  mipBias := .zero
  minFilter := .linear
  magFilter := .linear
  mipFilter := .linear

instance : Inhabited SamplerDesc := ⟨.standard⟩

/-- What editors should know of a parameter. -/
inductive ParamAttribute
  | name (s : String)
  | hideInInspector
  | hdr
  | spriteUV (texture : String)
  deriving DecidableEq, Inhabited

structure DataParam where
  gpuName : String
  type : DataParamType
  arraySize : Nat
  /-- The bytes of one element of a struct parameter, else zero. -/
  elementSize : Nat
  default? : Option (List UInt8)
  deriving DecidableEq, Inhabited

structure TextureParam where
  gpuName : String
  type : ObjectParamType
  default? : Option BuiltinTexture
  deriving DecidableEq, Inhabited

structure SamplerParam where
  gpuName : String
  default? : Option SamplerDesc
  deriving DecidableEq, Inhabited

structure BufferParam where
  gpuName : String
  type : ObjectParamType
  deriving DecidableEq, Inhabited

inductive BufferUsage
  | static | dynamic
  deriving DecidableEq, Inhabited

structure ParamBlock where
  shared : Bool
  usage : BufferUsage
  deriving DecidableEq, Inhabited

/-- The parameters of a shader. -/
structure Params where
  data : Table DataParam
  textures : Table TextureParam
  samplers : Table SamplerParam
  buffers : Table BufferParam
  blocks : Table ParamBlock
  attributes : Table (List ParamAttribute)
  deriving DecidableEq, Inhabited

namespace Params

/-- No parameters. -/
def empty : Params := ⟨.empty, .empty, .empty, .empty, .empty, .empty⟩

/-- There are no parameters; attributes alone do not count. -/
def isEmpty (p : Params) : Bool :=
  p.data.isEmpty && p.textures.isEmpty && p.samplers.isEmpty && p.buffers.isEmpty &&
    p.blocks.isEmpty

/-- A second registration agrees with the first, or its disagreement does not matter. -/
def check {α : Type} [DecidableEq α] (strict : Bool) (name what : String) (text : α → String)
    (first second : α) : Except CompileError Unit :=
  if strict ∧ first ≠ second then
    .error (.parameterMismatch name what (text first) (text second))
  else .ok ()

/-- Registers a data parameter, and says whether it is new. -/
def addData (p : Params) (strict : Bool) (name : String) (param : DataParam) :
    Except CompileError (Params × Bool) :=
  match p.data.get? name with
  | none => .ok ({ p with data := p.data.insert name param }, true)
  | some first => do
    check strict name "type" DataParamType.name first.type param.type
    check strict name "array size" toString first.arraySize param.arraySize
    return (p, false)

/-- Registers a texture, and says whether it is new. -/
def addTexture (p : Params) (strict : Bool) (name : String) (param : TextureParam) :
    Except CompileError (Params × Bool) :=
  match p.textures.get? name with
  | none => .ok ({ p with textures := p.textures.insert name param }, true)
  | some first => do
    check strict name "texture type" ObjectParamType.name first.type param.type
    return (p, false)

/-- Registers a sampler, and says whether it is new. -/
def addSampler (p : Params) (name : String) (param : SamplerParam) : Params × Bool :=
  match p.samplers.get? name with
  | none => ({ p with samplers := p.samplers.insert name param }, true)
  | some _ => (p, false)

/-- Registers a buffer, and says whether it is new. -/
def addBuffer (p : Params) (strict : Bool) (name : String) (param : BufferParam) :
    Except CompileError (Params × Bool) :=
  match p.buffers.get? name with
  | none => .ok ({ p with buffers := p.buffers.insert name param }, true)
  | some first => do
    check strict name "buffer type" ObjectParamType.name first.type param.type
    return (p, false)

/-- Registers a block. -/
def addBlock (p : Params) (name : String) (block : ParamBlock) : Params :=
  match p.blocks.get? name with
  | none => { p with blocks := p.blocks.insert name block }
  | some _ => p

/-- Adds an attribute that a parameter does not have yet. -/
def addAttribute (p : Params) (name : String) (a : ParamAttribute) : Params :=
  let known := (p.attributes.get? name).getD []
  if a ∈ known then p else { p with attributes := p.attributes.insert name (known ++ [a]) }

end Params
end ShaderLang
