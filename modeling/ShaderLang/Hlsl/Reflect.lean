import ShaderLang.Hlsl.Declaration
import ShaderLang.Hlsl.Scope
import ShaderLang.Number.Scientific
/-!
# Reflection of a program text

The reflection of a program, read off its declarations at the top level.

## Main definitions

* `Hlsl.defaultOf?` — the default that an initializer gives
* `Hlsl.Reader` — a reflection under way, with the next free bindings
* `Hlsl.Reader.declare` — one more declaration
* `Hlsl.reflect?` — the reflection of a program
-/

namespace ShaderLang.Hlsl

open Pattern

/-! ## Types -/

/-- The type of a variable, by its name. -/
def dataType? : String → Option DataType
  | "bool" => some .bool
  | "float" | "float1" | "half" => some .float
  | "float2" | "half2" => some .float2
  | "float3" | "half3" => some .float3
  | "float4" | "half4" => some .float4
  | "int" | "int1" => some .int
  | "int2" => some .int2
  | "int3" => some .int3
  | "int4" => some .int4
  | "uint" | "uint1" => some .uInt
  | "uint2" => some .uInt2
  | "uint3" => some .uInt3
  | "uint4" => some .uInt4
  | "float2x2" => some .float2x2
  | "float2x3" => some .float2x3
  | "float2x4" => some .float2x4
  | "float3x2" => some .float3x2
  | "float3x3" => some .float3x3
  | "float3x4" => some .float3x4
  | "float4x2" => some .float4x2
  | "float4x3" => some .float4x3
  | "float4x4" | "matrix" => some .float4x4
  | _ => none

/-- The type of a texture or a storage buffer, by its name. -/
def bufferType? : String → Option BufferType
  | "Buffer" => some .buffer
  | "StructuredBuffer" => some .structuredBuffer
  | "ByteAddressBuffer" => some .byteAddressBuffer
  | "RWBuffer" => some .rwBuffer
  | "RWStructuredBuffer" => some .rwStructuredBuffer
  | "RWByteAddressBuffer" => some .rwByteAddressBuffer
  | "AppendStructuredBuffer" => some .appendStructuredBuffer
  | "ConsumeStructuredBuffer" => some .consumeStructuredBuffer
  | "RWTexture1D" => some .rwTexture1D
  | "RWTexture1DArray" => some .rwTexture1DArray
  | "RWTexture2D" => some .rwTexture2D
  | "RWTexture2DArray" => some .rwTexture2DArray
  | "RWTexture3D" => some .rwTexture3D
  | "Texture1D" => some .texture1D
  | "Texture1DArray" => some .texture1DArray
  | "Texture2D" => some .texture2D
  | "Texture2DArray" => some .texture2DArray
  | "Texture3D" => some .texture3D
  | "TextureCube" => some .textureCube
  | "TextureCubeArray" => some .textureCubeArray
  | "Texture2DMS" => some .texture2DMS
  | "Texture2DMSArray" => some .texture2DMSArray
  | _ => none

/-- A texture, in contrast to a storage buffer. -/
def isTexture : BufferType → Bool
  | .buffer | .structuredBuffer | .byteAddressBuffer | .rwBuffer | .rwStructuredBuffer
  | .rwByteAddressBuffer | .appendStructuredBuffer | .consumeStructuredBuffer | .other => false
  | _ => true

/-! ## Numbers and defaults -/

/-- A name in an initializer. -/
def boundIdent : Pattern := seq wordBoundary ident

/-- A number in an initializer. -/
def number : Pattern :=
  let sign := opt (one fun c => c == '-' || c == '+')
  let digits := run1 Text.isDigit
  seqs [sign, alt (seqs [digits, opt (lit "."), run Text.isDigit]) (seq (lit ".") digits),
    opt (seqs [one fun c => c == 'e' || c == 'E', sign, digits])]

/-- The numbers of a text; names with their digits are passed over. -/
def numbers (text : List Char) : List Binary32 :=
  (number.findAll (boundIdent.replace (fun _ => [' ']) text)).filterMap
    fun m => Binary32.ofText? m.text

/-- Numbers as the first entries of a matrix. -/
def entriesOf (xs : List Binary32) : Entries := Vector.ofFn fun i => xs.getD i .zero

/-- The default that an initializer gives a variable. -/
def defaultOf? (type : DataType) (initializer : List Char) : Option DefaultValue :=
  match type with
  | .bool =>
    match String.ofList (Text.trim initializer) with
    | "true" => some (.bool true)
    | "false" => some (.bool false)
    | _ => none
  | _ =>
    match numbers initializer with
    | [] => none
    | x :: xs =>
      match type with
      | .float => some (.real x)
      | .int | .uInt => some (.int x.toInt32)
      | _ => some (.matrix (entriesOf (x :: xs)))

/-! ## Sampler states -/

/-- A setting of a sampler state. -/
def assignment : Pattern :=
  seqs [group "name" ident, blanks, lit "=", blanks, group "value" (run1 (· != ';')), lit ";"]

def filter? : String → Option Filter
  | "MIN_MAG_MIP_POINT" => some .minMagMipPoint
  | "MIN_MAG_POINT_MIP_LINEAR" => some .minMagPointMipLinear
  | "MIN_POINT_MAG_LINEAR_MIP_POINT" => some .minPointMagLinearMipPoint
  | "MIN_POINT_MAG_MIP_LINEAR" => some .minPointMagMipLinear
  | "MIN_LINEAR_MAG_MIP_POINT" => some .minLinearMagMipPoint
  | "MIN_LINEAR_MAG_POINT_MIP_LINEAR" => some .minLinearMagPointMipLinear
  | "MIN_MAG_LINEAR_MIP_POINT" => some .minMagLinearMipPoint
  | "MIN_MAG_MIP_LINEAR" => some .minMagMipLinear
  | "ANISOTROPIC" => some .anisotropic
  | _ => none

def addressMode? : String → Option AddressMode
  | "WRAP" => some .wrap
  | "MIRROR" => some .mirror
  | "CLAMP" => some .clamp
  | "BORDER" => some .border
  | "MIRROR_ONCE" => some .mirrorOnce
  | _ => none

def comparison? : String → Option CompareFunction
  | "NEVER" => some .alwaysFail
  | "LESS" => some .less
  | "EQUAL" => some .equal
  | "LESS_EQUAL" => some .lessEqual
  | "GREATER" => some .greater
  | "NOT_EQUAL" => some .notEqual
  | "GREATER_EQUAL" => some .greaterEqual
  | "ALWAYS" => some .alwaysPass
  | _ => none

/-- A setting of a sampler state, if it is known and its value makes sense. -/
def setSampler? (s : SamplerState) (name : String) (value : List Char) : Option SamplerState :=
  let word := String.ofList value
  match name with
  | "filter" => (filter? word).map fun filter => { s with filter }
  | "addressu" => (addressMode? word).map fun addressU => { s with addressU }
  | "addressv" => (addressMode? word).map fun addressV => { s with addressV }
  | "addressw" => (addressMode? word).map fun addressW => { s with addressW }
  | "comparisonfunc" => (comparison? word).map fun compare => { s with compare }
  | "maxanisotropy" => (word32? value).map fun maxAnisotropy => { s with maxAnisotropy }
  | "minlod" => (numbers value).head?.map fun minLod => { s with minLod }
  | "maxlod" => (numbers value).head?.map fun maxLod => { s with maxLod }
  | "miplodbias" => (numbers value).head?.map fun lodBias => { s with lodBias }
  | "bordercolor" =>
    let xs := numbers value
    some { s with border := s.border.mapFinIdx fun i x _ => xs.getD i x }
  | _ => none

/-- The settings of a block applied to a sampler state. -/
def samplerState (block : List Char) : SamplerState :=
  (assignment.findAll block).foldl
    (fun s m =>
      let name := Text.small (String.ofList (m.get "name"))
      let value := Text.capitals (Text.trim (m.get "value"))
      match setSampler? s name value with
      | some s' => { s' with nonDefault := true }
      | none => s)
    .standard

/-! ## Declarations -/

/-- The position of a struct by its name. -/
def structIndex? (structs : List StructInfo) (name : String) : Option Nat :=
  structs.findIdx? (·.ident == name)

/-- The members that a struct declares; those of unknown types are passed over. -/
def membersOf (structs : List StructInfo) (block : List Char) : List StructMember :=
  (declarations block).filterMap fun d =>
    let kind? : Option MemberKind := match dataType? d.type with
      | some type => some (.variable type)
      | none => (structIndex? structs d.type).map .struct
    kind?.map fun kind => ⟨d.name, kind, d.arraySize⟩

/-- A uniform without a default. -/
def Declared.uniform (d : Declared) (kind : UniformKind) : Uniform :=
  let a := Attributes.ofText d.attributes
  { ident := d.name, kind, marks := a.marks, shownName := a.shownName, arraySize := d.arraySize,
    default? := none, block? := none, spriteUV := a.spriteUV }

/-- The binding that a register asks for, or the next free one; and the next free one then. -/
def allocate (next : Nat) : Option Nat → Nat × Nat
  | some slot => (slot, max next (Word.wrap (slot + 1)))
  | none => (next, Word.wrap (next + 1))

/-- A reflection under way, with the next free bindings. -/
structure Reader where
  reflection : Reflection
  nextBuffer : Nat
  nextTexture : Nat
  nextStorage : Nat

namespace Reader

/-- Nothing has been declared, and bindings from `start` on are free. -/
def fresh (start : Nat) : Reader := ⟨.empty, start, start, start⟩

/-- Adds a uniform, with a default if it has one. -/
def addUniform (r : Reader) (u : Uniform) (default? : Option DefaultValue) : Reader :=
  let refl := r.reflection
  match default? with
  | none => { r with reflection := { refl with uniforms := refl.uniforms ++ [u] } }
  | some v =>
    { r with
      reflection := { refl with
        uniforms := refl.uniforms ++ [{ u with default? := some refl.defaults.length }]
        defaults := refl.defaults ++ [v] } }

/-- A variable inside a constant buffer; one of an unknown type is passed over. -/
def member (block : Nat) (r : Reader) (d : Declared) : Reader :=
  match dataType? d.type with
  | some type =>
    r.addUniform { d.uniform (.variable type) with block? := some block }
      (d.initializer?.bind (defaultOf? type))
  | none =>
    match structIndex? r.reflection.structs d.type with
    | some i => r.addUniform { d.uniform (.struct i) with block? := some block } none
    | none => r

/-- A struct. -/
def addStruct (r : Reader) (d : Declared) (block : List Char) : Reader :=
  let refl := r.reflection
  { r with
    reflection := { refl with
      structs := refl.structs ++ [⟨d.name, membersOf refl.structs block⟩] } }

/-- A constant buffer and the variables in it. -/
def addConstantBuffer (r : Reader) (d : Declared) (block : List Char) : Reader :=
  let refl := r.reflection
  let (location, next) := allocate r.nextBuffer d.slot?
  let r : Reader := { r with
    reflection := { refl with constantBuffers := refl.constantBuffers ++ [⟨d.name, location⟩] }
    nextBuffer := next }
  (declarations block).foldl (member refl.constantBuffers.length)
    (r.addUniform (d.uniform .uniformBuffer) none)

/-- A sampler; its state is kept if something was said of it, or if it has a second name. -/
def addSampler (r : Reader) (d : Declared) (block? : Option (List Char)) : Reader :=
  let state := (block?.map samplerState).getD .standard
  let secondName := (Attributes.ofText d.attributes).secondName
  let refl := r.reflection
  let samplers :=
    if state.nonDefault || !secondName.isEmpty then
      refl.samplers.insert d.name { state with secondName }
    else refl.samplers
  let r : Reader := { r with reflection := { refl with samplers } }
  r.addUniform (d.uniform .sampler) none

/-- The number of the built-in texture that an initializer names. -/
def builtinTexture? (initializer : List Char) : Option DefaultValue :=
  match String.ofList (Text.trim initializer) with
  | "white" => some (.int 1)
  | "black" => some (.int 2)
  | "normal" => some (.int 3)
  | _ => none

/-- A texture or a storage buffer. -/
def addBuffer (r : Reader) (d : Declared) (type : BufferType) : Reader :=
  let refl := r.reflection
  if isTexture type then
    let (location, next) := allocate r.nextTexture d.slot?
    let r : Reader := { r with
      reflection := { refl with textures := refl.textures ++ [⟨d.name, location⟩] }
      nextTexture := next }
    r.addUniform (d.uniform (.buffer type)) (d.initializer?.bind builtinTexture?)
  else
    let (location, next) := allocate r.nextStorage d.slot?
    let r : Reader := { r with
      reflection := { refl with storageBuffers := refl.storageBuffers ++ [⟨d.name, location⟩] }
      nextStorage := next }
    r.addUniform (d.uniform (.buffer type)) none

/-- A variable at the top level, or one of a struct type; others are passed over. -/
def addVariable (r : Reader) (d : Declared) : Reader :=
  match dataType? d.type with
  | some type => r.addUniform (d.uniform (.variable type)) (d.initializer?.bind (defaultOf? type))
  | none =>
    match structIndex? r.reflection.structs d.type with
    | some i => r.addUniform (d.uniform (.struct i)) none
    | none => r

/-- One more declaration of the text `text`, in which its block lies. -/
def declare (text : List Char) (r : Reader) (d : Declared) : Reader :=
  let block? := d.block?.map fun b => slice text b.1 b.2
  if d.isLocal then r
  else
    match d.type with
    | "struct" => r.addStruct d (block?.getD [])
    | "cbuffer" | "tbuffer" => r.addConstantBuffer d (block?.getD [])
    | "SamplerState" | "SamplerComparisonState" | "sampler" => r.addSampler d block?
    | type =>
      match bufferType? type with
      | some type => r.addBuffer d type
      | none => r.addVariable d

end Reader

/-- Names without repetitions, each where it first came up. -/
def distinct (names : List String) : List String :=
  names.foldl (fun seen name => if name ∈ seen then seen else seen ++ [name]) []

/-- A program's reflection, with bindings from `start` on; none if its braces do not balance. -/
def reflect? (code : String) (start : Nat) : Option Reflection :=
  let text := uncommented code.toList
  (blankScopes? text).map fun top =>
    let r := (declarations top).foldl (Reader.declare text) (.fresh start)
    { r.reflection with functions := distinct (functions top) }

end ShaderLang.Hlsl
