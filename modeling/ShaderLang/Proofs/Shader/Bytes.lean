import ShaderLang.Shader.Binary
import ShaderLang.Proofs.Binary.Reading
import Mathlib.Data.List.Basic
/-!
# The bytes of a shader

A shader is read back from its bytes, whatever bytes stand behind them, and these are left. So the
bytes of a shader tell it from all others, and where it ends: those of one shader never start with
those of another.

The numbers of a shader are machine words, and no text and no list in it is longer than a machine
word can tell. The layouts ask for no more than that.

## Main definitions

* `Shader.Fits` — the numbers and lengths in a shader fit their words

## Main results

* `Shader.reads_layoutTo` — shaders are read back, up to a depth of nesting
* `Shader.write_layoutTo` — the bytes of a shader do not depend on that depth
* `Shader.toBytes_selfDelimiting` — shaders are told by the front of a row of bytes
-/

namespace ShaderLang

open Layout

/-! ## Shaders that fit their words -/

@[mk_iff]
structure GpuProgram.Fits (p : GpuProgram) : Prop where
  entryPoint : Spelled p.entryPoint
  source : Spelled p.source

def Pass.Fits (p : Pass) : Prop := Listed GpuProgram.Fits p.programs

@[mk_iff]
structure Technique.Fits (t : Technique) : Prop where
  tags : Listed Spelled t.tags
  variation : Tabled Signed32 t.variation
  passes : Listed Pass.Fits t.passes

@[mk_iff]
structure DataParam.Fits (p : DataParam) : Prop where
  gpuName : Spelled p.gpuName
  arraySize : Unsigned32 p.arraySize
  elementSize : Unsigned32 p.elementSize
  default? : ∀ bytes ∈ p.default?, bytes.length < Word.limit 8

def TextureParam.Fits (p : TextureParam) : Prop := Spelled p.gpuName

@[mk_iff]
structure SamplerParam.Fits (p : SamplerParam) : Prop where
  gpuName : Spelled p.gpuName
  default? : ∀ s ∈ p.default?, Unsigned32 s.maxAnisotropy

def BufferParam.Fits (p : BufferParam) : Prop := Spelled p.gpuName

def ParamAttribute.Fits (a : ParamAttribute) : Prop := Spelled a.text

@[mk_iff]
structure Params.Fits (p : Params) : Prop where
  data : Tabled DataParam.Fits p.data
  textures : Tabled TextureParam.Fits p.textures
  samplers : Tabled SamplerParam.Fits p.samplers
  buffers : Tabled BufferParam.Fits p.buffers
  blocks : Tabled (fun _ => True) p.blocks
  attributes : Tabled (Listed ParamAttribute.Fits) p.attributes

@[mk_iff]
structure VariationValue.Fits (v : VariationValue) : Prop where
  name : Spelled v.name
  value : Signed32 v.value

@[mk_iff]
structure VariationParam.Fits (p : VariationParam) : Prop where
  identifier : Spelled p.identifier
  name : Spelled p.name
  values : Listed VariationValue.Fits p.values

section Decisions

instance : DecidablePred GpuProgram.Fits := fun p => decidable_of_iff _ p.fits_iff.symm

instance : DecidablePred Pass.Fits := fun p =>
  inferInstanceAs (Decidable (Listed GpuProgram.Fits p.programs))

instance : DecidablePred Technique.Fits := fun t => decidable_of_iff _ t.fits_iff.symm

instance : DecidablePred DataParam.Fits := fun p => decidable_of_iff _ p.fits_iff.symm

instance : DecidablePred TextureParam.Fits := fun p =>
  inferInstanceAs (Decidable (Spelled p.gpuName))

instance : DecidablePred SamplerParam.Fits := fun p => decidable_of_iff _ p.fits_iff.symm

instance : DecidablePred BufferParam.Fits := fun p =>
  inferInstanceAs (Decidable (Spelled p.gpuName))

instance : DecidablePred ParamAttribute.Fits := fun a =>
  inferInstanceAs (Decidable (Spelled a.text))

instance : DecidablePred Params.Fits := fun p => decidable_of_iff _ p.fits_iff.symm

instance : DecidablePred VariationValue.Fits := fun v => decidable_of_iff _ v.fits_iff.symm

instance : DecidablePred VariationParam.Fits := fun p => decidable_of_iff _ p.fits_iff.symm

end Decisions

/-- The numbers and the lengths in a shader and in all shaders nested in it fit their words. -/
inductive Shader.Fits : Shader → Prop
  | of {s : Shader} (name : Spelled s.name) (priority : Signed32 s.options.priority)
      (techniques : Listed Technique.Fits s.techniques) (params : s.params.Fits)
      (variationParams : Listed VariationParam.Fits s.variationParams)
      (subShaders : s.subShaders.length < Word.limit 8)
      (subNames : ∀ x ∈ s.subShaders, Spelled x.name)
      (nested : ∀ x ∈ s.subShaders, Fits x.shader) (includes : Listed Spelled s.includes) : Fits s

/-! ## Alternatives -/

theorem BlendFactor.reads_layout : BlendFactor.layout.ReadsAll :=
  reads_oneOf (by rintro ⟨⟩ <;> decide) (by decide)

theorem BlendOperation.reads_layout : BlendOperation.layout.ReadsAll :=
  reads_oneOf (by rintro ⟨⟩ <;> decide) (by decide)

theorem StencilOperation.reads_layout : StencilOperation.layout.ReadsAll :=
  reads_oneOf (by rintro ⟨⟩ <;> decide) (by decide)

theorem CompareFunction.reads_layout : CompareFunction.layout.ReadsAll :=
  reads_oneOf (by rintro ⟨⟩ <;> decide) (by decide)

theorem PolygonMode.reads_layout : PolygonMode.layout.ReadsAll :=
  reads_oneOf (by rintro ⟨⟩ <;> decide) (by decide)

theorem CullingMode.reads_layout : CullingMode.layout.ReadsAll :=
  reads_oneOf (by rintro ⟨⟩ <;> decide) (by decide)

theorem QueueSortType.reads_layout : QueueSortType.layout.ReadsAll :=
  reads_oneOf (by rintro ⟨⟩ <;> decide) (by decide)

theorem Stage.reads_layout : Stage.layout.ReadsAll := reads_oneOf mem_all (by decide)

theorem Language.reads_layout : Language.layout.ReadsAll :=
  reads_oneOf (by rintro ⟨⟩ <;> decide) (by decide)

theorem DataParamType.reads_layout : DataParamType.layout.ReadsAll :=
  reads_oneOf (by rintro ⟨⟩ <;> decide) (by decide)

theorem ObjectParamType.reads_layout : ObjectParamType.layout.ReadsAll :=
  reads_oneOf (by rintro ⟨⟩ <;> decide) (by decide)

theorem BuiltinTexture.reads_layout : BuiltinTexture.layout.ReadsAll :=
  reads_oneOf (by rintro ⟨⟩ <;> decide) (by decide)

theorem TextureAddressing.reads_layout : TextureAddressing.layout.ReadsAll :=
  reads_oneOf (by rintro ⟨⟩ <;> decide) (by decide)

theorem FilterOption.reads_layout : FilterOption.layout.ReadsAll :=
  reads_oneOf (by rintro ⟨⟩ <;> decide) (by decide)

theorem BufferUsage.reads_layout : BufferUsage.layout.ReadsAll :=
  reads_oneOf (by rintro ⟨⟩ <;> decide) (by decide)

/-! ## States and techniques -/

theorem Binary32.reads_layout : Binary32.layout.ReadsAll :=
  reads_word.via fun _ _ => ⟨rfl, trivial⟩

theorem TargetBlend.reads_layout : TargetBlend.layout.ReadsAll :=
  Reads.via (reads_bool.pair <| BlendFactor.reads_layout.pair <| BlendFactor.reads_layout.pair <|
    BlendOperation.reads_layout.pair <| BlendFactor.reads_layout.pair <|
    BlendFactor.reads_layout.pair <| BlendOperation.reads_layout.pair reads_byte)
    fun _ _ => ⟨rfl, by simp⟩

theorem BlendState.reads_layout : BlendState.layout.ReadsAll :=
  Reads.via (reads_bool.pair <| reads_bool.pair <| TargetBlend.reads_layout.vector targetCount)
    fun _ _ => ⟨rfl, by simp⟩

theorem RasterState.reads_layout : RasterState.layout.ReadsAll :=
  Reads.via (PolygonMode.reads_layout.pair <| CullingMode.reads_layout.pair <|
    Binary32.reads_layout.pair <| Binary32.reads_layout.pair <| reads_bool.pair <|
    reads_bool.pair <| reads_bool.pair reads_bool) fun _ _ => ⟨rfl, by simp⟩

theorem StencilFace.reads_layout : StencilFace.layout.ReadsAll :=
  Reads.via (StencilOperation.reads_layout.pair <| StencilOperation.reads_layout.pair <|
    StencilOperation.reads_layout.pair CompareFunction.reads_layout) fun _ _ => ⟨rfl, by simp⟩

theorem DepthStencilState.reads_layout : DepthStencilState.layout.ReadsAll :=
  Reads.via (reads_bool.pair <| reads_bool.pair <| CompareFunction.reads_layout.pair <|
    reads_bool.pair <| reads_byte.pair <| reads_byte.pair <|
    StencilFace.reads_layout.pair StencilFace.reads_layout) fun _ _ => ⟨rfl, by simp⟩

theorem PassStates.reads_layout : PassStates.layout.ReadsAll :=
  Reads.via (BlendState.reads_layout.pair <| RasterState.reads_layout.pair <|
    DepthStencilState.reads_layout.pair <| reads_bool.pair <| reads_bool.pair <|
    reads_bool.pair reads_word) fun _ _ => ⟨rfl, by simp⟩

theorem GpuProgram.reads_layout : GpuProgram.layout.Reads Fits :=
  Reads.via (Stage.reads_layout.pair <| Language.reads_layout.pair <| reads_text.pair reads_text)
    fun _ h => ⟨rfl, trivial, trivial, h.entryPoint, h.source⟩

theorem Pass.reads_layout : Pass.layout.Reads Fits :=
  Reads.via (PassStates.reads_layout.pair GpuProgram.reads_layout.list)
    fun _ h => ⟨rfl, trivial, h⟩

theorem Technique.reads_layout : Technique.layout.Reads Fits :=
  Reads.via (Language.reads_layout.pair <| reads_text.list.pair <|
    reads_integer.table.pair Pass.reads_layout.list)
    fun _ h => ⟨rfl, trivial, h.tags, h.variation, h.passes⟩

/-! ## Parameters -/

theorem DataParam.reads_layout : DataParam.layout.Reads Fits :=
  Reads.via (reads_text.pair <| DataParamType.reads_layout.pair <| (reads_natural 4).pair <|
    (reads_natural 4).pair reads_bytes.option)
    fun _ h => ⟨rfl, h.gpuName, trivial, h.arraySize, h.elementSize, h.default?⟩

theorem TextureParam.reads_layout : TextureParam.layout.Reads Fits :=
  Reads.via (reads_text.pair <| ObjectParamType.reads_layout.pair
    BuiltinTexture.reads_layout.option) fun _ h => ⟨rfl, h, trivial, fun _ _ => trivial⟩

theorem SamplerDesc.reads_layout : SamplerDesc.layout.Reads fun s => Unsigned32 s.maxAnisotropy :=
  Reads.via (TextureAddressing.reads_layout.pair <| TextureAddressing.reads_layout.pair <|
    TextureAddressing.reads_layout.pair <| (Binary32.reads_layout.vector 4).pair <|
    CompareFunction.reads_layout.pair <| (reads_natural 4).pair <| Binary32.reads_layout.pair <|
    Binary32.reads_layout.pair <| Binary32.reads_layout.pair <| FilterOption.reads_layout.pair <|
    FilterOption.reads_layout.pair FilterOption.reads_layout)
    fun _ h => ⟨rfl, by simpa [Unsigned32] using h⟩

theorem SamplerParam.reads_layout : SamplerParam.layout.Reads Fits :=
  Reads.via (reads_text.pair SamplerDesc.reads_layout.option)
    fun _ h => ⟨rfl, h.gpuName, h.default?⟩

theorem BufferParam.reads_layout : BufferParam.layout.Reads Fits :=
  Reads.via (reads_text.pair ObjectParamType.reads_layout) fun _ h => ⟨rfl, h, trivial⟩

theorem ParamBlock.reads_layout : ParamBlock.layout.ReadsAll :=
  Reads.via (reads_bool.pair BufferUsage.reads_layout) fun _ _ => ⟨rfl, by simp⟩

theorem ParamAttribute.tag_lt (a : ParamAttribute) : a.tag < Word.limit 4 := by
  cases a <;> simp [tag]

theorem ParamAttribute.reads_layout : ParamAttribute.layout.Reads Fits := by
  refine Reads.tagged (fun a _ => a.tag_lt) fun a ha => ?_
  cases a with
  | name s => exact ⟨_, rfl, reads_text.via fun b hb => hb ▸ ⟨rfl, ha⟩⟩
  | hideInInspector => exact ⟨_, rfl, reads_empty.via fun b hb => hb ▸ ⟨rfl, trivial⟩⟩
  | hdr => exact ⟨_, rfl, reads_empty.via fun b hb => hb ▸ ⟨rfl, trivial⟩⟩
  | spriteUV s => exact ⟨_, rfl, reads_text.via fun b hb => hb ▸ ⟨rfl, ha⟩⟩

theorem Params.reads_layout : Params.layout.Reads Fits :=
  Reads.via (DataParam.reads_layout.table.pair <| TextureParam.reads_layout.table.pair <|
    SamplerParam.reads_layout.table.pair <| BufferParam.reads_layout.table.pair <|
    ParamBlock.reads_layout.table.pair ParamAttribute.reads_layout.list.table)
    fun _ h => ⟨rfl, h.data, h.textures, h.samplers, h.buffers, h.blocks, h.attributes⟩

/-! ## Shaders -/

theorem ShaderOptions.reads_layout : ShaderOptions.layout.Reads fun o => Signed32 o.priority :=
  Reads.via (reads_bool.pair <| QueueSortType.reads_layout.pair <| reads_integer.pair <|
    reads_bool.pair reads_bool) fun _ h => ⟨rfl, trivial, trivial, h, trivial, trivial⟩

theorem VariationValue.reads_layout : VariationValue.layout.Reads Fits :=
  Reads.via (reads_text.pair reads_integer) fun _ h => ⟨rfl, h.name, h.value⟩

theorem VariationParam.reads_layout : VariationParam.layout.Reads Fits :=
  Reads.via (reads_text.pair <| reads_text.pair <|
    reads_bool.pair VariationValue.reads_layout.list)
    fun _ h => ⟨rfl, h.identifier, h.name, trivial, h.values⟩

theorem SubShader.reads_layout {shader : Layout Shader} {P : Shader → Prop}
    (h : shader.Reads P) : (SubShader.layout shader).Reads fun x => Spelled x.name ∧ P x.shader :=
  Reads.via (reads_text.pair h) fun ⟨_, _⟩ hx => ⟨rfl, hx⟩

theorem SubShader.write_layout (shader : Layout Shader) (x : SubShader) :
    (SubShader.layout shader).write x = text.write x.name ++ shader.write x.shader := rfl

/-! ### The depth of nesting -/

theorem Shader.depth_eq (s : Shader) : s.depth = SubShader.depths s.subShaders + 1 := by
  cases s
  simp only [Shader.depth]

theorem SubShader.depth_eq (x : SubShader) : x.depth = x.shader.depth := by
  cases x
  simp only [SubShader.depth]

theorem SubShader.depths_le_iff {xs : List SubShader} {depth : Nat} :
    depths xs ≤ depth ↔ ∀ x ∈ xs, x.shader.depth ≤ depth := by
  induction xs with
  | nil => simp [depths]
  | cons x xs ih => rw [depths, Nat.max_le, ih, depth_eq, List.forall_mem_cons]

namespace Shader

theorem depth_pos (s : Shader) : 0 < s.depth := s.depth_eq ▸ Nat.succ_pos _

theorem depth_le_succ_iff {s : Shader} {depth : Nat} :
    s.depth ≤ depth + 1 ↔ ∀ x ∈ s.subShaders, x.shader.depth ≤ depth := by
  rw [depth_eq, Nat.add_le_add_iff_right, SubShader.depths_le_iff]

/-- What a layout for shaders of some depth holds. -/
def FitsTo (depth : Nat) (s : Shader) : Prop := s.Fits ∧ s.depth ≤ depth

theorem FitsTo.subShaders {depth : Nat} {s : Shader} (h : s.FitsTo (depth + 1)) :
    Listed (fun x => Spelled x.name ∧ x.shader.FitsTo depth) s.subShaders := by
  obtain ⟨⟨hname, hpriority, htechniques, hparams, hvariation, hlength, hnames, hnested, hincludes⟩,
    hdepth⟩ := h
  exact ⟨hlength, fun x hx => ⟨hnames x hx, hnested x hx, depth_le_succ_iff.1 hdepth x hx⟩⟩

/-- Shaders are read back by a layout for their depth or a greater one. -/
theorem reads_layoutTo (depth : Nat) : (layoutTo depth).Reads (FitsTo depth) := by
  induction depth with
  | zero =>
    intro s rest h
    exact absurd h.2 (Nat.not_le.2 s.depth_pos)
  | succ depth ih =>
    refine Reads.via (reads_text.pair <| ShaderOptions.reads_layout.pair <|
      Technique.reads_layout.list.pair <| Params.reads_layout.pair <|
      VariationParam.reads_layout.list.pair <|
      (SubShader.reads_layout ih).list.pair reads_text.list) fun s h => ?_
    have hsubs := h.subShaders
    obtain ⟨⟨hname, hpriority, htechniques, hparams, hvariation, -, -, -, hincludes⟩, -⟩ := h
    cases s
    exact ⟨rfl, hname, hpriority, htechniques, hparams, hvariation, hsubs, hincludes⟩

/-! ### The bytes do not depend on the depth -/

theorem write_layoutTo_congr {s : Shader} {d e : Nat} (hd : s.depth ≤ d) (he : s.depth ≤ e) :
    (layoutTo d).write s = (layoutTo e).write s := by
  induction d generalizing s e with
  | zero => exact absurd hd (Nat.not_le.2 s.depth_pos)
  | succ d ih =>
    cases e with
    | zero => exact absurd he (Nat.not_le.2 s.depth_pos)
    | succ e =>
      have hsubs : (SubShader.layout (layoutTo d)).list.write s.subShaders =
          (SubShader.layout (layoutTo e)).list.write s.subShaders := by
        refine congrArg (_ ++ ·) (List.flatMap_congr fun x hx => ?_)
        rw [SubShader.write_layout, SubShader.write_layout,
          ih (depth_le_succ_iff.1 hd x hx) (depth_le_succ_iff.1 he x hx)]
      simp only [layoutTo, via, Layout.pair, hsubs]

/-- A layout for a greater depth writes the same bytes. -/
theorem write_layoutTo {s : Shader} {depth : Nat} (h : s.depth ≤ depth) :
    (layoutTo depth).write s = s.toBytes := write_layoutTo_congr h (Nat.le_refl _)

theorem length_write_text_pos (name : String) : 0 < (text.write name).length := by
  have hlength : ((natural 8).write name.toUTF8.data.toList.length).length = 8 :=
    Word.length_littleEndian 8 _
  simp only [text, bytes, Layout.list, List.length_append, hlength]
  omega

theorem length_toBytes_pos (s : Shader) : 0 < s.toBytes.length := by
  have hname := length_write_text_pos s.name
  rw [toBytes, s.depth_eq]
  simp only [layoutTo, via, Layout.pair, List.length_append]
  omega

/-- The bytes of a shader hold those of its sub-shaders, and more. -/
theorem length_toBytes_lt {s : Shader} {x : SubShader} (hx : x ∈ s.subShaders) :
    x.shader.toBytes.length < s.toBytes.length := by
  obtain ⟨d, hd⟩ : ∃ d, s.depth = d + 1 := ⟨_, s.depth_eq⟩
  have hwritten : (layoutTo d).write x.shader = x.shader.toBytes :=
    write_layoutTo (depth_le_succ_iff.1 (Nat.le_of_eq hd) x hx)
  have hsub : x.shader.toBytes.length ≤
      (s.subShaders.flatMap (SubShader.layout (layoutTo d)).write).length := by
    have hmem := (List.infix_of_mem_flatten
      (List.mem_map_of_mem (f := (SubShader.layout (layoutTo d)).write) hx)).length_le
    rw [SubShader.write_layout, hwritten, List.length_append] at hmem
    exact Nat.le_trans (Nat.le_add_left _ _) hmem
  have hname := length_write_text_pos s.name
  have hlength : s.toBytes.length = ((layoutTo (d + 1)).write s).length := by rw [toBytes, hd]
  rw [hlength]
  simp only [layoutTo, via, Layout.pair, Layout.list, List.length_append]
  omega

/-- A shader has more bytes than it has levels of sub-shaders. -/
theorem depth_le_length_toBytes (s : Shader) : s.depth ≤ s.toBytes.length := by
  suffices h : ∀ n (s : Shader), s.toBytes.length ≤ n → s.depth ≤ n from h _ s (Nat.le_refl _)
  intro n
  induction n with
  | zero => exact fun s hs => absurd hs (Nat.not_le.2 s.length_toBytes_pos)
  | succ n ih =>
    exact fun s hs => depth_le_succ_iff.2 fun x hx =>
      ih x.shader (Nat.le_of_lt_succ (Nat.lt_of_lt_of_le (length_toBytes_lt hx) hs))

/-! ### Telling shaders by their bytes -/

theorem ofBytes?_toBytes_append {s : Shader} (h : s.Fits) (rest : List UInt8) :
    ofBytes? (s.toBytes ++ rest) = some (s, rest) := by
  have hdepth : s.depth ≤ (s.toBytes ++ rest).length :=
    Nat.le_trans s.depth_le_length_toBytes (by simp)
  have hread := (reads_layoutTo (s.toBytes ++ rest).length).read?_write_append ⟨h, hdepth⟩ rest
  rwa [write_layoutTo hdepth] at hread

/-- A shader is read from the front of any row of bytes that starts with its own, and the bytes
behind them are left. So no two shaders have the same bytes, and those of one never start with
those of another. -/
theorem toBytes_selfDelimiting :
    (∀ (s : Shader) (rest : List UInt8), s.Fits →
      ofBytes? (s.toBytes ++ rest) = some (s, rest)) ∧
    ∀ s t : Shader, s.Fits → t.Fits → s.toBytes <+: t.toBytes → s = t := by
  refine ⟨fun s rest h => ofBytes?_toBytes_append h rest, ?_⟩
  rintro s t hs ht ⟨rest, hrest⟩
  have hreadS : ofBytes? t.toBytes = some (s, rest) := hrest ▸ ofBytes?_toBytes_append hs rest
  have hreadT : ofBytes? t.toBytes = some (t, []) := by
    simpa using ofBytes?_toBytes_append ht []
  rw [hreadS] at hreadT
  exact congrArg Prod.fst (Option.some.inj hreadT)

/-- A shader with a program, a parameter and a sub-shader. -/
def lit : Shader where
  name := "Lit"
  options := ⟨true, .backToFront, -5, false, true⟩
  techniques := [⟨.glsl, ["Forward"], Table.empty.insert "SHADOWS" 1,
    [⟨{ PassStates.standard with
        raster := { RasterState.standard with depthBias := ⟨0x7FC00001⟩ } },
      [⟨.vertex, .glsl, "main", "void main() \x7b\x7d"⟩]⟩]⟩]
  params := { Params.empty with
    data := Table.empty.insert "gTint" ⟨"gTint", .float4, 1, 0, some [0, 0, 128, 63]⟩
    attributes := Table.empty.insert "gTint" [.hdr, .spriteUV "gMap"] }
  variationParams := [⟨"SHADOWS", "Shadows", false, [⟨"On", 1⟩]⟩]
  subShaders := [⟨"Surface", empty "Matte"⟩]
  includes := ["Lit.bslinc"]

theorem fits_empty {name : String} (h : Spelled name) : (empty name).Fits :=
  .of h (by decide : Signed32 0) (by decide : Listed Technique.Fits [])
    (by decide : Params.empty.Fits) (by decide : Listed VariationParam.Fits [])
    (by decide : 0 < Word.limit 8) nofun nofun (by decide : Listed Spelled [])

theorem fits_lit : lit.Fits := by
  refine .of (by decide) (by decide) (by decide) (by decide) (by decide) (by decide)
    (by decide) ?_ (by decide)
  simpa [lit] using fits_empty (by decide : Spelled "Matte")

theorem toBytes_lit_selfDelimiting :
    (lit.Fits ∧ ofBytes? (lit.toBytes ++ [1, 2, 3]) = some (lit, [1, 2, 3])) ∧
    (empty "A").Fits ∧ (empty "B").Fits ∧ ¬(empty "A").toBytes <+: (empty "B").toBytes :=
  have hA : (empty "A").Fits := fits_empty (by decide)
  have hB : (empty "B").Fits := fits_empty (by decide)
  ⟨⟨fits_lit, toBytes_selfDelimiting.1 lit [1, 2, 3] fits_lit⟩, hA, hB, fun h =>
    absurd (congrArg Shader.name (toBytes_selfDelimiting.2 _ _ hA hB h)) (by decide)⟩

end Shader
end ShaderLang
