import ShaderLang.Proofs.Hlsl.Variable
import ShaderLang.Proofs.Param.Internal
/-!
# Sizes of defaults

The default of a parameter takes as many bytes as one element of the parameter. A truth value, an
integer and a number take four bytes, and are defaults of single components only. A vector and a
matrix get a whole matrix as their default, which is cut to the bytes that their type has; no type
has more than that, also not the one that takes the place of a matrix of three rows and two columns.

## Main definitions

* `Hlsl.dataParam` — the entry that a variable asks for

## Main results

* `Params.length_defaultBytes` — a default takes the bytes of its type
* `Params.data_origin_registerAll` — every entry was there before or is asked for
* `Params.default_fits` — the defaults of a program that is registered
-/

namespace ShaderLang

/-! ## Bytes of defaults -/

theorem DataParamType.size_le (t : DataParamType) : t.size ≤ 64 := by
  cases t <;> decide

theorem Binary32.length_flatMap_bytes (xs : List Binary32) :
    (xs.flatMap fun x => Word.bytes32 x.bits).length = 4 * xs.length := by
  simp [List.length_flatMap, Nat.mul_comm]

theorem DefaultValue.length_bytes_matrix (entries : Entries) :
    (DefaultValue.matrix entries).bytes.length = 64 := by
  rw [bytes, Binary32.length_flatMap_bytes, Vector.length_toList]

/-- A default is a matrix, or it is of a type with one component and takes four bytes. -/
theorem Hlsl.defaultOf?_cases {t : DataType} {text : List Char} {v : DefaultValue}
    (h : defaultOf? t text = some v) :
    (∃ entries, v = .matrix entries) ∨
      v.bytes.length = 4 ∧ (t = .bool ∨ t = .float ∨ t = .int ∨ t = .uInt) := by
  unfold defaultOf? at h
  split at h
  · split at h
    · cases h
      exact .inr ⟨rfl, .inl rfl⟩
    · cases h
      exact .inr ⟨rfl, .inl rfl⟩
    · cases h
  · split at h
    · cases h
    · split at h <;> cases h
      · exact .inr ⟨Word.length_bytes32 _, .inr (.inl rfl)⟩
      · exact .inr ⟨Word.length_bytes32 _, .inr (.inr (.inl rfl))⟩
      · exact .inr ⟨Word.length_bytes32 _, .inr (.inr (.inr rfl))⟩
      · exact .inl ⟨_, rfl⟩

namespace Params

variable {t : DataType} {text : List Char} {v : DefaultValue} {u : Uniform}

/-- The types of variables have parameters with bytes. -/
theorem size_paramType_pos (ht : t ≠ .other) (u : Uniform) : 0 < (u.paramType t).size := by
  unfold Uniform.paramType
  dsimp only
  split
  · decide
  · cases t with
    | other => exact absurd rfl ht
    | _ => decide

/-- Only vectors can be colors. -/
theorem size_paramType_of_scalar (ht : t = .bool ∨ t = .float ∨ t = .int ∨ t = .uInt)
    (u : Uniform) : (u.paramType t).size = 4 := by
  unfold Uniform.paramType
  rcases ht with rfl | rfl | rfl | rfl <;> simp [DataType.paramType] <;> rfl

/-- A default takes the bytes of its type. -/
theorem length_defaultBytes (h : Hlsl.defaultOf? t text = some v) (ht : t ≠ .other) (u : Uniform) :
    (defaultBytes (u.paramType t) v).length = (u.paramType t).size := by
  have hle : (u.paramType t).size ≤ v.bytes.length := by
    rcases Hlsl.defaultOf?_cases h with ⟨entries, rfl⟩ | ⟨hlength, hscalar⟩
    · rw [DefaultValue.length_bytes_matrix]
      exact (u.paramType t).size_le
    · rw [hlength, size_paramType_of_scalar hscalar]
  rw [defaultBytes, if_pos (size_paramType_pos ht u), List.length_take, Nat.min_eq_left hle]

end Params

/-! ## Entries of variables -/

namespace Hlsl

/-- The entry that a variable asks for. -/
def dataParam (x : Declared × DataType) : DataParam :=
  let u := x.1.uniform (.variable x.2)
  ⟨u.ident, u.paramType x.2, u.arraySize, 0,
    (x.1.initializer?.bind (defaultOf? x.2)).map (Params.defaultBytes (u.paramType x.2))⟩

variable {r : Reflection} {u : Uniform} {x : Declared × DataType} {code : String}

theorem Describes.paramType (h : Describes r.defaults u x) :
    u.paramType x.2 = (x.1.uniform (.variable x.2)).paramType x.2 := by
  rw [← h.declared]
  rfl

/-- A uniform asks for the entry of the variable that it stands for, unless it is hidden. -/
theorem Describes.demand (h : Describes r.defaults u x) (hu : ¬ r.Hides u) :
    ∃ attributes, r.demand u = .data (dataParam x) attributes := by
  rw [← Reflection.demand_eq_nothing_iff] at hu
  unfold Reflection.demand at hu ⊢
  cases hinternal : u.marks.internal with
  | true => simp [hinternal] at hu
  | false =>
    simp only [hinternal, h.kind, Bool.false_eq_true, if_false, Reflection.variableDemand] at hu ⊢
    cases hblock : r.isBlockInternal u with
    | true => simp [hblock] at hu
    | false =>
      refine ⟨u.variableAttributes (u.paramType x.2), ?_⟩
      rw [h.defaultOf?_eq, h.paramType, h.ident, h.arraySize]
      rfl

/-- The default of a variable takes the bytes of its type. -/
theorem length_default_dataParam (hx : x ∈ variablesIn code) {bytes : List UInt8}
    (h : (dataParam x).default? = some bytes) : bytes.length = (dataParam x).type.size := by
  obtain ⟨v, hv, rfl⟩ := Option.map_eq_some_iff.1 h
  obtain ⟨text, -, hdefault⟩ := Option.bind_eq_some_iff.1 hv
  refine Params.length_defaultBytes hdefault (fun hother => ?_) _
  -- No name is one of an unknown type.
  have htype := dataType?_of_mem_variablesIn hx
  rw [hother] at htype
  unfold dataType? at htype
  split at htype <;> cases htype

end Hlsl

namespace Params

variable {p q : Params} {r : Reflection} {name other : String} {param : DataParam} {strict : Bool}

/-! ## Origins of entries -/

theorem data_addAttributes (p : Params) (name : String) (attributes : List ParamAttribute) :
    (p.addAttributes name attributes).data = p.data := by
  obtain ⟨table, htable⟩ := exists_addAttributes p name attributes
  rw [htable]

theorem data_addSamplers (p : Params) (param : SamplerParam) (names : List String) :
    (p.addSamplers param names).data = p.data := by
  induction names generalizing p with
  | nil => rfl
  | cons name names ih =>
    have hfirst : (p.addSampler name param).1.data = p.data := by
      unfold addSampler
      split <;> rfl
    exact (ih _).trans hfirst

/-- An entry that is there when a demand is met was there before or is what was asked for. -/
theorem Meets.data_origin {d : Demand} (h : Meets p name d q)
    (hq : q.data.get? other = some param) :
    p.data.get? other = some param ∨ name = other ∧ ∃ attributes, d = .data param attributes := by
  cases h with
  | stays | block => exact .inl hq
  | sampler =>
    rw [data_addSamplers] at hq
    exact .inl hq
  | texture | buffer =>
    rw [data_addAttributes] at hq
    exact .inl hq
  | @data asked attributes =>
    rw [data_addAttributes, Table.get?_insert] at hq
    split at hq
    · next heq =>
      cases hq
      exact .inr ⟨heq, attributes, rfl⟩
    · exact .inl hq

/-- An entry that is there when uniforms are registered was there before or one of them asks for
it. -/
theorem data_origin_registerAll {us : List Uniform}
    (h : (registerAll r strict p us).1.data.get? name = some param) :
    p.data.get? name = some param ∨
      ∃ u ∈ us, u.ident = name ∧ ∃ attributes, r.demand u = .data param attributes := by
  induction us generalizing p with
  | nil => exact .inl h
  | cons u us ih =>
    have hstep := registers_uniform r strict p u
    unfold registerAll at h
    generalize registerUniform r strict p u = result at h hstep
    cases hstep with
    -- What could not be registered leaves the tables as they were.
    | clash => exact .inl h
    | met =>
      rcases ih h with h | ⟨v, hv, hname, hdemand⟩
      · rcases (meets_met ..).data_origin h with h | ⟨hname, hdemand⟩
        · exact .inl h
        · exact .inr ⟨u, List.mem_cons_self, hname, hdemand⟩
      · exact .inr ⟨v, List.mem_cons_of_mem u hv, hname, hdemand⟩

/-- Data are asked for by variables, and by uniforms of struct types, which have no default. -/
theorem isVariable_or_struct {u : Uniform} {attributes : List ParamAttribute}
    (hdemand : r.demand u = .data param attributes) :
    u.isVariable = true ∨ param.type = .struct ∧ param.default? = none := by
  rw [Reflection.demand] at hdemand
  split at hdemand
  · cases hdemand
  · cases hkind : u.kind with
    | «variable» t => exact .inl (by rw [Uniform.isVariable, hkind])
    | struct index =>
      rw [hkind] at hdemand
      cases hdemand
      exact .inr ⟨rfl, rfl⟩
    -- All others ask for an entry in a table of their own.
    | uniformBuffer =>
      rw [hkind] at hdemand
      cases hdemand
    | buffer type =>
      simp only [hkind, Reflection.bufferDemand] at hdemand
      split at hdemand <;> cases hdemand
    | sampler =>
      simp only [hkind, Reflection.samplerDemand] at hdemand
      split at hdemand <;> cases hdemand

/-- An entry that is asked for is that of a variable in the code, or one of a struct. -/
theorem eq_dataParam_or_struct {code : String} {start : Nat} {u : Uniform}
    {attributes : List ParamAttribute} (h : Hlsl.reflect? code start = some r)
    (hu : u ∈ r.uniforms) (hdemand : r.demand u = .data param attributes) :
    (∃ x ∈ Hlsl.variablesIn code, x.1.name = u.ident ∧ param = Hlsl.dataParam x) ∨
      param.type = .struct ∧ param.default? = none := by
  refine (isVariable_or_struct hdemand).imp_left fun hvariable => ?_
  obtain ⟨x, hx, hux⟩ := Hlsl.exists_variable_of_uniform h hu hvariable
  have hshown : ¬ r.Hides u := fun hhides => by
    rw [Reflection.demand_eq_nothing_iff.2 hhides] at hdemand
    cases hdemand
  obtain ⟨_, hdemand'⟩ := hux.demand hshown
  rw [hdemand] at hdemand'
  exact ⟨x, hx, hux.ident.symm, (Demand.data.inj hdemand').1⟩

/-- The defaults of a program that is registered, strictly or not and also up to an error, have the
sizes of their types: every entry is one of a struct, without a default, or that of a variable of
its name, with the default of the initializer, and what default there is takes exactly the bytes of
one element. -/
theorem default_fits {code : String} {start : Nat} (h : Hlsl.reflect? code start = some r)
    (strict : Bool) (hparam : (empty.register strict r).1.data.get? name = some param) :
    (∀ bytes, param.default? = some bytes → bytes.length = param.type.size) ∧
      ((∃ x ∈ Hlsl.variablesIn code, x.1.name = name ∧ param = Hlsl.dataParam x) ∨
        param.type = .struct ∧ param.default? = none) := by
  rcases data_origin_registerAll hparam with hempty | ⟨u, hu, rfl, attributes, hdemand⟩
  · cases hempty
  · have horigin := eq_dataParam_or_struct h hu hdemand
    refine ⟨fun bytes hbytes => ?_, horigin⟩
    rcases horigin with ⟨x, hx, -, rfl⟩ | ⟨-, hnone⟩
    · exact Hlsl.length_default_dataParam hx hbytes
    · cases hnone.symm.trans hbytes

/-- A color, and a matrix that is registered as a wider one. -/
def colorAndMatrix : String :=
  "[Color] float4 gTint = float4(1, 0.5, 0, 1);\nfloat3x2 gAxes = float3x2(1, 0, 0, 1, 0, 0);\n"

theorem default_fits_color :
    ∃ r tint axes, Hlsl.reflect? colorAndMatrix 0 = some r ∧
      (empty.register true r).1.data.get? "gTint" = some tint ∧
      (empty.register true r).1.data.get? "gAxes" = some axes ∧
      (tint.type, tint.default?.map List.length) = (.color, some 16) ∧
      (axes.type, axes.default?.map List.length) = (.matrix3x4, some 48) := by
  have hread : (Hlsl.reflect? colorAndMatrix 0).any (fun r =>
      ((empty.register true r).1.data.get? "gTint").any (fun e =>
        e.type = .color && e.default?.isSome) &&
      ((empty.register true r).1.data.get? "gAxes").any (fun e =>
        e.type = .matrix3x4 && e.default?.isSome)) = true := by decide +kernel
  obtain ⟨r, hr, hread⟩ := (Option.any_eq_true ..).1 hread
  rw [Bool.and_eq_true] at hread
  obtain ⟨htint, haxes⟩ := hread
  obtain ⟨tint, htint, hread⟩ := (Option.any_eq_true ..).1 htint
  obtain ⟨axes, haxes, hread'⟩ := (Option.any_eq_true ..).1 haxes
  simp only [Bool.and_eq_true, decide_eq_true_eq] at hread hread'
  -- That there are defaults is read off; their lengths follow from the types.
  obtain ⟨bytes, hbytes⟩ := Option.isSome_iff_exists.1 hread.2
  obtain ⟨bytes', hbytes'⟩ := Option.isSome_iff_exists.1 hread'.2
  refine ⟨r, tint, axes, hr, htint, haxes, ?_, ?_⟩
  · rw [hbytes, Option.map_some, (default_fits hr true htint).1 bytes hbytes, hread.1]
    rfl
  · rw [hbytes', Option.map_some, (default_fits hr true haxes).1 bytes' hbytes', hread'.1]
    rfl

end Params
end ShaderLang
