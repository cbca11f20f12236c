import ShaderLang.Number.Word
import ShaderLang.Render.State
import ShaderLang.Table
/-!
# Reflections

What a program declares: its uniforms with the buffers they lie in, its textures and storage
buffers with their bindings, its functions, the defaults of its variables, its sampler states and
its structs.

## Main definitions

* `Uniform`, `UniformKind` — a declared resource or variable
* `DefaultValue` — the default of a variable, and `DefaultValue.bytes`
* `SamplerState` — how a texture is sampled
* `StructInfo` — a struct with its members
* `Reflection` — all of it together
* `Reflection.nextBinding` — the first binding above all that are taken
-/

namespace ShaderLang

inductive BufferType
  | buffer | structuredBuffer | byteAddressBuffer
  | rwBuffer | rwStructuredBuffer | rwByteAddressBuffer
  | appendStructuredBuffer | consumeStructuredBuffer
  | rwTexture1D | rwTexture1DArray | rwTexture2D | rwTexture2DArray | rwTexture3D
  | texture1D | texture1DArray | texture2D | texture2DArray | texture3D
  | textureCube | textureCubeArray | texture2DMS | texture2DMSArray
  | other
  deriving DecidableEq, Inhabited

inductive DataType
  | bool | float | float2 | float3 | float4 | int | int2 | int3 | int4
  | uInt | uInt2 | uInt3 | uInt4
  | float2x2 | float2x3 | float2x4 | float3x2 | float3x3 | float3x4 | float4x2 | float4x3 | float4x4
  | other
  deriving DecidableEq, Inhabited

/-- What a uniform is. -/
inductive UniformKind
  | uniformBuffer
  | buffer (type : BufferType)
  | sampler
  | variable (type : DataType)
  /-- A struct, by its position among the structs. -/
  | struct (index : Nat)
  deriving DecidableEq, Inhabited

/-- What attributes say of a uniform. -/
structure Marks where
  /-- It is no parameter of the shader. -/
  internal : Bool
  /-- It is a color. -/
  color : Bool
  /-- Editors do not show it. -/
  hidden : Bool
  /-- It is a color beyond the displayable range. -/
  hdr : Bool
  deriving DecidableEq, Inhabited

/-- Nothing is said. -/
def Marks.none : Marks := ⟨false, false, false, false⟩

/-- A declared resource or variable. -/
structure Uniform where
  ident : String
  kind : UniformKind
  marks : Marks
  /-- The name that editors show. -/
  shownName : String
  arraySize : Nat
  /-- The position of its default among the defaults. -/
  default? : Option Nat
  /-- The position of the constant buffer it lies in. -/
  block? : Option Nat
  /-- The texture that it gives coordinates of. -/
  spriteUV : String
  deriving DecidableEq, Inhabited

/-- A matrix, or a vector in the first entries of one. -/
abbrev Entries := Vector Binary32 16

/-- The default of a variable. -/
inductive DefaultValue
  | bool (b : Bool)
  | int (n : Int)
  | real (x : Binary32)
  | matrix (entries : Entries)
  deriving DecidableEq, Inhabited

namespace DefaultValue

/-- The default as an integer; a matrix counts by its first entry. -/
def integer : DefaultValue → Int
  | bool b => if b then 1 else 0
  | int n => n
  | real x => x.toInt32
  | matrix entries => entries[0].toInt32

/-- The little-endian bytes of the default. -/
def bytes : DefaultValue → List UInt8
  | bool b => Word.bytes32 (if b then 1 else 0)
  | int n => Word.bytes32 (Word.half n)
  | real x => Word.bytes32 x.bits
  | matrix entries => entries.toList.flatMap fun x => Word.bytes32 x.bits

end DefaultValue

inductive AddressMode
  | wrap | mirror | clamp | border | mirrorOnce
  deriving DecidableEq, Inhabited

inductive Filter
  | minMagMipPoint | minMagPointMipLinear | minPointMagLinearMipPoint | minPointMagMipLinear
  | minLinearMagMipPoint | minLinearMagPointMipLinear | minMagLinearMipPoint | minMagMipLinear
  | anisotropic
  deriving DecidableEq, Inhabited

/-- How a texture is sampled. -/
structure SamplerState where
  addressU : AddressMode
  addressV : AddressMode
  addressW : AddressMode
  border : Vector Binary32 4
  compare : CompareFunction
  maxAnisotropy : Nat
  minLod : Binary32
  maxLod : Binary32
  lodBias : Binary32
  filter : Filter
  /-- Another name of the sampler. -/
  secondName : String
  /-- Something was said of the state. -/
  nonDefault : Bool
  deriving DecidableEq

def SamplerState.standard : SamplerState where
  addressU := .wrap
  addressV := .wrap
  addressW := .wrap
  border := .replicate 4 .zero
  compare := .alwaysPass
  maxAnisotropy := 1
  minLod := .least
  maxLod := .greatest
  lodBias := .zero
  filter := .minMagMipLinear
  secondName := ""
  nonDefault := false

instance : Inhabited SamplerState := ⟨.standard⟩

/-- A resource with its binding. -/
structure Binding where
  ident : String
  location : Nat
  deriving DecidableEq, Inhabited

/-- What a member of a struct is: a variable, or a struct by its position. -/
inductive MemberKind
  | variable (type : DataType)
  | struct (index : Nat)
  deriving DecidableEq, Inhabited

structure StructMember where
  ident : String
  kind : MemberKind
  arraySize : Nat
  deriving DecidableEq, Inhabited

/-- A struct with its members. -/
structure StructInfo where
  ident : String
  members : List StructMember
  deriving DecidableEq, Inhabited

/-- What a program declares. -/
structure Reflection where
  uniforms : List Uniform
  constantBuffers : List Binding
  textures : List Binding
  storageBuffers : List Binding
  functions : List String
  defaults : List DefaultValue
  samplers : Table SamplerState
  structs : List StructInfo
  deriving DecidableEq, Inhabited

namespace Reflection

/-- A program that declares nothing. -/
def empty : Reflection := ⟨[], [], [], [], [], [], .empty, []⟩

/-- The program has a function of that name. -/
def hasFunction (r : Reflection) (name : String) : Bool := name ∈ r.functions

/-- All bindings. -/
def bindings (r : Reflection) : List Binding :=
  r.constantBuffers ++ r.textures ++ r.storageBuffers

/-- The first binding that is at least `start` and above all that are taken. The last binding that
a word can name has none above it. -/
def nextBinding (r : Reflection) (start : Nat) : Nat :=
  r.bindings.foldl (fun next b => max next (Word.wrap (b.location + 1))) start

/-- The default of a uniform. -/
def defaultOf? (r : Reflection) (u : Uniform) : Option DefaultValue :=
  u.default?.bind fun i => r.defaults[i]?

end Reflection
end ShaderLang
