import Mathlib.Data.List.Forall2
import ShaderLang.Proofs.Param.Demand
/-!
# What declarations ask for, and in what they may differ

A uniform asks for an entry of a table, and what a strict registration compares of entries is their
shape. The shape of an entry tells less than its uniform: resources have no array size there,
several types are registered as one, and of a struct nothing is told but that it is one. So two
uniforms with entries of one shape may still differ in their own kind, type and array size. Those
that do are listed here; all others agree.

## Main definitions

* `ParamTable`, `ParamShape` — a table of parameters, and what is compared of its entries
* `Reflection.SameUniform` — two uniforms agree in kind, type and array size
* `Reflection.Overlooked` — they differ in what shapes do not tell

## Main results

* `Reflection.sameUniform_iff` — uniforms with entries agree just if they are for one table, where
  the shapes for one table are the same and no difference is overlooked
-/

namespace ShaderLang

/-- The tables that uniforms have entries in. -/
inductive ParamTable
  | data | textures | samplers | buffers | blocks
  deriving DecidableEq

/-- What strict registration compares of an entry. -/
inductive ParamShape
  | data (type : DataParamType) (arraySize : Nat)
  | texture (type : ObjectParamType)
  | sampler
  | buffer (type : ObjectParamType)
  | block
  deriving DecidableEq

/-- The table that entries of a shape are in. -/
def ParamShape.table : ParamShape → ParamTable
  | data .. => .data
  | texture _ => .textures
  | sampler => .samplers
  | buffer _ => .buffers
  | block => .blocks

/-- The shape of the entry that is asked for. -/
def Demand.shape? : Demand → Option ParamShape
  | nothing => none
  | block _ => some .block
  | sampler .. => some .sampler
  | texture param _ => some (.texture param.type)
  | buffer param _ => some (.buffer param.type)
  | data param _ => some (.data param.type param.arraySize)

/-! ## Types that are registered as one -/

/-- The types of variables that are registered as one: integers with a sign and without, and two of
the matrices with three rows; of variables that are colors, those of three and four numbers too. -/
def DataType.merged (colors : Bool) : List (List DataType) :=
  [[.int, .uInt], [.int2, .uInt2], [.int3, .uInt3], [.int4, .uInt4], [.float3x2, .float3x4]] ++
    if colors then [[.float3, .float4]] else []

/-- The types of buffers that are registered as one. -/
def BufferType.merged : List (List BufferType) := [[.buffer, .rwBuffer]]

theorem DataType.paramType_eq_iff {type type' : DataType} :
    type.paramType = type'.paramType ↔
      type = type' ∨ ∃ c ∈ merged false, type ∈ c ∧ type' ∈ c := by
  cases type <;> cases type' <;> decide

theorem BufferType.textureType?_eq_iff {type type' : BufferType} {t : ObjectParamType}
    (h : type.textureType? = some t) : type'.textureType? = some t ↔ type = type' := by
  cases type <;> cases h <;> cases type' <;> decide

theorem BufferType.storageType_eq_iff {type type' : BufferType} (h : type.textureType? = none)
    (h' : type'.textureType? = none) :
    type.storageType = type'.storageType ↔
      type = type' ∨ ∃ c ∈ merged, type ∈ c ∧ type' ∈ c := by
  cases type <;> cases h <;> cases type' <;> cases h' <;> decide

/-- Colors are registered as one type, whether they have three numbers or four. -/
theorem Uniform.eq_or_merged_of_paramType {u v : Uniform} {type type' : DataType}
    (h : u.paramType type = v.paramType type') :
    type = type' ∨
      ∃ c ∈ DataType.merged (u.marks.color && v.marks.color), type ∈ c ∧ type' ∈ c := by
  have hcolor : ∀ t : DataType, t.paramType ≠ .color := fun t => by cases t <;> decide
  have hvector : ∀ t : DataType, (t.paramType = .float3 || t.paramType = .float4) = true →
      t ∈ [DataType.float3, .float4] := fun t => by cases t <;> decide
  unfold paramType at h
  dsimp only at h
  split at h
  · next hu =>
    split at h
    · next hv =>
      obtain ⟨hucolor, htype⟩ := Bool.and_eq_true_iff.1 hu
      obtain ⟨hvcolor, htype'⟩ := Bool.and_eq_true_iff.1 hv
      refine .inr ⟨_, List.mem_append_right _ ?_, hvector type htype, hvector type' htype'⟩
      rw [hucolor, hvcolor]
      exact List.mem_singleton_self _
    · exact absurd h.symm (hcolor type')
  · split at h
    · exact absurd h (hcolor type)
    · rcases DataType.paramType_eq_iff.1 h with rfl | ⟨c, hc, hmem⟩
      · exact .inl rfl
      · exact .inr ⟨c, List.mem_append_left _ (by simpa [DataType.merged] using hc), hmem⟩

theorem Uniform.paramType_ne_struct (u : Uniform) (type : DataType) :
    u.paramType type ≠ .struct := by
  unfold paramType
  dsimp only
  split
  · decide
  · cases type <;> decide

/-! ## Uniforms that agree -/

namespace Reflection

/-- Members of structs agree, where `Same` says of nested structs whether they do. -/
def SameMember (Same : Nat → Nat → Prop) (m m' : StructMember) : Prop :=
  m.ident = m'.ident ∧ m.arraySize = m'.arraySize ∧
    match m.kind, m'.kind with
    | .struct i, .struct j => Same i j
    | kind, kind' => kind = kind'

/-- A struct of one program and one of another are the same. The structs of the two can be paired
so that these two are a pair, and that each pair has one name and the same members, where structs
within them are pairs again. -/
def SameStruct (r r' : Reflection) (i j : Nat) : Prop :=
  ∃ Same : Nat → Nat → Prop, Same i j ∧ ∀ i j, Same i j →
    Option.Rel (fun info info' => info.ident = info'.ident ∧
      List.Forall₂ (SameMember Same) info.members info'.members) r.structs[i]? r'.structs[j]?

/-- Two uniforms, each with its program, agree in kind, type and array size. -/
structure SameUniform (x y : Reflection × Uniform) : Prop where
  kind : match x.2.kind, y.2.kind with
    | .struct i, .struct j => SameStruct x.1 y.1 i j
    | kind, kind' => kind = kind'
  arraySize : x.2.arraySize = y.2.arraySize

/-- Two uniforms, each with its program, differ in something of which shapes tell nothing. -/
inductive Overlooked (x y : Reflection × Uniform) : Prop
  /-- Constant buffers, samplers, textures and storage buffers are registered without their array
  sizes. -/
  | blockSize (h : x.2.kind = .uniformBuffer) (h' : y.2.kind = .uniformBuffer)
      (hne : x.2.arraySize ≠ y.2.arraySize)
  | samplerSize (h : x.2.kind = .sampler) (h' : y.2.kind = .sampler)
      (hne : x.2.arraySize ≠ y.2.arraySize)
  | bufferSize {type type' : BufferType} (h : x.2.kind = .buffer type)
      (h' : y.2.kind = .buffer type') (hne : x.2.arraySize ≠ y.2.arraySize)
  | bufferType {type type' : BufferType} (h : x.2.kind = .buffer type)
      (h' : y.2.kind = .buffer type') (hne : type ≠ type')
      (hmerged : ∃ c ∈ BufferType.merged, type ∈ c ∧ type' ∈ c)
  | variableType {type type' : DataType} (h : x.2.kind = .variable type)
      (h' : y.2.kind = .variable type') (hne : type ≠ type')
      (hmerged : ∃ c ∈ DataType.merged (x.2.marks.color && y.2.marks.color), type ∈ c ∧ type' ∈ c)
  /-- Structs are registered as structs, whatever they are made of. -/
  | struct {i j : Nat} (h : x.2.kind = .struct i) (h' : y.2.kind = .struct j)
      (hne : ¬ SameStruct x.1 y.1 i j)

/-- The shape of the entry that a uniform asks for, told from its kind. -/
inductive Asks (u : Uniform) : ParamShape → Prop
  | block (h : u.kind = .uniformBuffer) : Asks u .block
  | texture {type : BufferType} {t : ObjectParamType} (h : u.kind = .buffer type)
      (ht : type.textureType? = some t) : Asks u (.texture t)
  | buffer {type : BufferType} (h : u.kind = .buffer type) (ht : type.textureType? = none) :
      Asks u (.buffer type.storageType)
  | sampler (h : u.kind = .sampler) : Asks u .sampler
  | variable {type : DataType} (h : u.kind = .variable type) :
      Asks u (.data (u.paramType type) u.arraySize)
  | struct {i : Nat} (h : u.kind = .struct i) : Asks u (.data .struct u.arraySize)

variable {x y : Reflection × Uniform} {s s' : ParamShape}

theorem asks_of_shape? (h : (x.1.demand x.2).shape? = some s) : Asks x.2 s := by
  unfold demand at h
  split at h
  · cases h
  · split at h
    · next hkind =>
      cases h
      exact .block hkind
    · next type hkind =>
      unfold bufferDemand at h
      split at h
      · next t ht =>
        cases h
        exact .texture hkind ht
      · next ht =>
        cases h
        exact .buffer hkind ht
    · next hkind =>
      unfold samplerDemand at h
      split at h <;> cases h <;> exact .sampler hkind
    · next type hkind =>
      unfold variableDemand at h
      split at h
      · cases h
      · cases h
        exact .variable hkind
    · next i hkind =>
      cases h
      exact .struct hkind

/-- Uniforms that agree are for one table. -/
theorem SameUniform.table_eq (h : SameUniform x y) (hx : Asks x.2 s) (hy : Asks y.2 s') :
    s.table = s'.table := by
  have hkind := h.kind
  cases hx <;> cases hy <;> simp_all [ParamShape.table]

/-- Uniforms that agree have nothing that is overlooked. -/
theorem SameUniform.not_overlooked (h : SameUniform x y) : ¬ Overlooked x y := by
  have hkind := h.kind
  rintro (⟨-, -, hne⟩ | ⟨-, -, hne⟩ | ⟨-, -, hne⟩ | ⟨hx, hy, hne, -⟩ | ⟨hx, hy, hne, -⟩ |
    ⟨hx, hy, hne⟩)
  · exact hne h.arraySize
  · exact hne h.arraySize
  · exact hne h.arraySize
  · rw [hx, hy] at hkind
    exact hne (UniformKind.buffer.inj hkind)
  · rw [hx, hy] at hkind
    exact hne (UniformKind.variable.inj hkind)
  · rw [hx, hy] at hkind
    exact hne hkind

/-- Buffers of types that are registered as one agree if nothing is overlooked. -/
theorem sameUniform_of_buffers {type type' : BufferType} (h : x.2.kind = .buffer type)
    (h' : y.2.kind = .buffer type')
    (htype : type = type' ∨ ∃ c ∈ BufferType.merged, type ∈ c ∧ type' ∈ c)
    (hnot : ¬ Overlooked x y) : SameUniform x y := by
  have hsame : type = type' := by_contra fun hne =>
    hnot (.bufferType h h' hne (htype.resolve_left hne))
  exact ⟨by rw [h, h', hsame], by_contra fun hne => hnot (.bufferSize h h' hne)⟩

/-- Variables of types that are registered as one, and with one array size, agree if nothing is
overlooked. -/
theorem sameUniform_of_variables {type type' : DataType} (h : x.2.kind = .variable type)
    (h' : y.2.kind = .variable type') (htype : x.2.paramType type = y.2.paramType type')
    (hsize : x.2.arraySize = y.2.arraySize) (hnot : ¬ Overlooked x y) : SameUniform x y := by
  have hsame : type = type' := by_contra fun hne => hnot <|
    .variableType h h' hne ((Uniform.eq_or_merged_of_paramType htype).resolve_left hne)
  exact ⟨by rw [h, h', hsame], hsize⟩

/-- Uniforms that ask for entries of one shape agree if nothing is overlooked. -/
theorem Asks.sameUniform (hx : Asks x.2 s) (hy : Asks y.2 s') (hs : s = s')
    (hnot : ¬ Overlooked x y) : SameUniform x y := by
  cases hx with
  | block h =>
    cases hy with
    | block h' => exact ⟨by rw [h, h'], by_contra fun hne => hnot (.blockSize h h' hne)⟩
    | _ => cases hs
  | texture h ht =>
    cases hy with
    | texture h' ht' =>
      cases hs
      exact sameUniform_of_buffers h h' (.inl ((BufferType.textureType?_eq_iff ht).1 ht')) hnot
    | _ => cases hs
  | buffer h ht =>
    cases hy with
    | buffer h' ht' =>
      have htype := (BufferType.storageType_eq_iff ht ht').1 (ParamShape.buffer.inj hs)
      exact sameUniform_of_buffers h h' htype hnot
    | _ => cases hs
  | sampler h =>
    cases hy with
    | sampler h' => exact ⟨by rw [h, h'], by_contra fun hne => hnot (.samplerSize h h' hne)⟩
    | _ => cases hs
  | «variable» h =>
    cases hy with
    | «variable» h' =>
      obtain ⟨htype, hsize⟩ := ParamShape.data.inj hs
      exact sameUniform_of_variables h h' htype hsize hnot
    -- No variable is registered as a struct.
    | struct h' => exact absurd (ParamShape.data.inj hs).1 (Uniform.paramType_ne_struct _ _)
    | _ => cases hs
  | struct h =>
    cases hy with
    | «variable» h' =>
      exact absurd (ParamShape.data.inj hs).1.symm (Uniform.paramType_ne_struct _ _)
    | struct h' =>
      refine ⟨?_, (ParamShape.data.inj hs).2⟩
      rw [h, h']
      exact by_contra fun hne => hnot (.struct h h' hne)
    | _ => cases hs

/-- Of uniforms with entries, where those for one table are of one shape, two agree just if they are
for one table and nothing is overlooked. -/
theorem sameUniform_iff (hx : (x.1.demand x.2).shape? = some s)
    (hy : (y.1.demand y.2).shape? = some s') (hs : s.table = s'.table → s = s') :
    SameUniform x y ↔ s.table = s'.table ∧ ¬ Overlooked x y := by
  have hx := asks_of_shape? hx
  have hy := asks_of_shape? hy
  constructor
  · intro h
    exact ⟨h.table_eq hx hy, h.not_overlooked⟩
  · rintro ⟨htable, hnot⟩
    exact hx.sameUniform hy (hs htable) hnot

end Reflection
end ShaderLang
