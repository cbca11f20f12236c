import ShaderLang.Param.Registration
import ShaderLang.Proofs.Outcome
/-!
# What a uniform asks for

A declared uniform asks for an entry in one of the tables, under its own name, and for attributes if
the entry is new. A name that the table has already is passed over. When the registration is strict,
the entry that is there must agree with the one that is asked for; nothing else can go wrong.

## Main definitions

* `Demand`, `Reflection.demand` — what a uniform asks for
* `Params.met` — the tables with a demand met
* `Params.Clashes` — a demand that disagrees with the entry that is there

## Main results

* `Params.registers_uniform` — a uniform is registered by meeting its demand, unless the
  registration is strict and the demand clashes
-/

namespace ShaderLang

/-- What a uniform asks to be entered, under its own name. The attributes are those of a new
entry. -/
inductive Demand
  | nothing
  | block (param : ParamBlock)
  /-- A sampler is entered under its other names as well. -/
  | sampler (param : SamplerParam) (otherNames : List String)
  | texture (param : TextureParam) (attributes : List ParamAttribute)
  | buffer (param : BufferParam) (attributes : List ParamAttribute)
  | data (param : DataParam) (attributes : List ParamAttribute)

/-- The attributes that data and textures share. -/
def Uniform.commonAttributes (u : Uniform) : List ParamAttribute :=
  (if u.shownName.isEmpty then [] else [.name u.shownName]) ++
    (if u.marks.hidden then [.hideInInspector] else []) ++ (if u.marks.hdr then [.hdr] else [])

/-- The attributes of a variable of some type. -/
def Uniform.variableAttributes (u : Uniform) (type : DataParamType) : List ParamAttribute :=
  (if !u.spriteUV.isEmpty && type = .float4 then [.spriteUV u.spriteUV] else []) ++
    u.commonAttributes

/-- What a sampler asks for. One with a state may have a second name. -/
def Reflection.samplerDemand (r : Reflection) (u : Uniform) : Demand :=
  match r.samplers.get? u.ident with
  | none => .sampler ⟨u.ident, none⟩ []
  | some state =>
    .sampler ⟨u.ident, if state.nonDefault then some state.desc else none⟩
      (if state.secondName.isEmpty then [] else [state.secondName])

/-- What a texture or a storage buffer asks for. -/
def Reflection.bufferDemand (r : Reflection) (u : Uniform) (type : BufferType) : Demand :=
  match type.textureType? with
  | some t =>
    .texture ⟨u.ident, t, (r.defaultOf? u).bind fun v => BuiltinTexture.ofIndex? v.integer⟩
      u.commonAttributes
  | none => .buffer ⟨u.ident, type.storageType⟩ u.commonAttributes

/-- What a variable asks for; one in an internal block asks for nothing. -/
def Reflection.variableDemand (r : Reflection) (u : Uniform) (type : DataType) : Demand :=
  if r.isBlockInternal u then .nothing
  else
    .data
      ⟨u.ident, u.paramType type, u.arraySize, 0,
        (r.defaultOf? u).map (Params.defaultBytes (u.paramType type))⟩
      (u.variableAttributes (u.paramType type))

/-- What a uniform asks for. -/
def Reflection.demand (r : Reflection) (u : Uniform) : Demand :=
  if u.marks.internal then .nothing
  else
    match u.kind with
    | .uniformBuffer => .block ⟨false, .static⟩
    | .buffer type => r.bufferDemand u type
    | .sampler => r.samplerDemand u
    | .variable type => r.variableDemand u type
    | .struct index =>
      .data ⟨u.ident, .struct, u.arraySize, structSize r.structs index, none⟩ []

namespace Params

/-- The tables with attributes added to a name. -/
def addAttributes (p : Params) (name : String) (attributes : List ParamAttribute) : Params :=
  attributes.foldl (fun p a => p.addAttribute name a) p

/-- Only the attributes change where attributes are added. -/
theorem exists_addAttributes (p : Params) (name : String) (attributes : List ParamAttribute) :
    ∃ table, p.addAttributes name attributes = { p with attributes := table } := by
  induction attributes generalizing p with
  | nil => exact ⟨p.attributes, rfl⟩
  | cons a attributes ih =>
    obtain ⟨first, hfirst⟩ : ∃ table, p.addAttribute name a = { p with attributes := table } := by
      unfold addAttribute
      dsimp only
      split
      · exact ⟨p.attributes, rfl⟩
      · exact ⟨_, rfl⟩
    obtain ⟨table, htable⟩ := ih (p.addAttribute name a)
    exact ⟨table, htable.trans (by rw [hfirst])⟩

/-- The tables with a sampler entered under several names, where they are free. -/
def addSamplers (p : Params) (param : SamplerParam) (names : List String) : Params :=
  names.foldl (fun p name => (p.addSampler name param).1) p

/-- The tables with a demand met. A name that is taken meets it already. -/
def met (p : Params) (name : String) : Demand → Params
  | .nothing => p
  | .block param => p.addBlock name param
  | .sampler param otherNames =>
    match p.samplers.get? name with
    | some _ => p
    | none => p.addSamplers param (otherNames ++ [name])
  | .texture param attributes =>
    match p.textures.get? name with
    | some _ => p
    | none => { p with textures := p.textures.insert name param }.addAttributes name attributes
  | .buffer param attributes =>
    match p.buffers.get? name with
    | some _ => p
    | none => { p with buffers := p.buffers.insert name param }.addAttributes name attributes
  | .data param attributes =>
    match p.data.get? name with
    | some _ => p
    | none => { p with data := p.data.insert name param }.addAttributes name attributes

/-- A demand for an entry that is there already and differs in `what`. Of data that differ both in
type and in array size, the type counts. -/
inductive Clashes (p : Params) (name : String) : Demand → String → String → String → Prop
  | texture {first param : TextureParam} {attributes : List ParamAttribute}
      (h : p.textures.get? name = some first) (hne : first.type ≠ param.type) :
      Clashes p name (.texture param attributes) "texture type" first.type.name param.type.name
  | buffer {first param : BufferParam} {attributes : List ParamAttribute}
      (h : p.buffers.get? name = some first) (hne : first.type ≠ param.type) :
      Clashes p name (.buffer param attributes) "buffer type" first.type.name param.type.name
  | dataType {first param : DataParam} {attributes : List ParamAttribute}
      (h : p.data.get? name = some first) (hne : first.type ≠ param.type) :
      Clashes p name (.data param attributes) "type" first.type.name param.type.name
  | arraySize {first param : DataParam} {attributes : List ParamAttribute}
      (h : p.data.get? name = some first) (heq : first.type = param.type)
      (hne : first.arraySize ≠ param.arraySize) :
      Clashes p name (.data param attributes) "array size" (toString first.arraySize)
        (toString param.arraySize)

variable {p : Params} {r : Reflection} {u : Uniform} {strict : Bool} {name : String} {d : Demand}
  {attributes : List ParamAttribute}

theorem addCommonAttributes_eq (p : Params) (u : Uniform) :
    p.addCommonAttributes u = p.addAttributes u.ident u.commonAttributes := by
  unfold addCommonAttributes addAttributes Uniform.commonAttributes
  rw [List.foldl_append, List.foldl_append]
  split <;> split <;> split <;> rfl

/-! ## Registering meets demands -/

/-- A demand is met, or the registration is strict and the demand clashes. -/
inductive Registers (strict : Bool) (p : Params) (name : String) (d : Demand) :
    Except CompileError Params → Prop
  | met (h : strict = true → ∀ what first second, ¬ Clashes p name d what first second) :
      Registers strict p name d (.ok (p.met name d))
  | clash {what first second : String} (hstrict : strict = true)
      (h : Clashes p name d what first second) :
      Registers strict p name d (.error (.parameterMismatch name what first second))

theorem Registers.of_met_eq {q : Params} (hq : p.met name d = q)
    (h : strict = true → ∀ what first second, ¬ Clashes p name d what first second) :
    Registers strict p name d (.ok q) :=
  hq ▸ .met h

/-- The check of an entry that is there. -/
theorem check_cases {α : Type} [DecidableEq α] (strict : Bool) (name what : String)
    (text : α → String) (first second : α) :
    (check strict name what text first second = .ok () ∧ (strict = true → first = second)) ∨
      (check strict name what text first second =
        .error (.parameterMismatch name what (text first) (text second)) ∧
        strict = true ∧ first ≠ second) := by
  unfold check
  split
  · next h => exact .inr ⟨rfl, h⟩
  · next h => exact .inl ⟨rfl, fun hstrict => by_contra fun hne => h ⟨hstrict, hne⟩⟩

/-- A demand for an entry that is there is met if the check of the entry succeeds, and clashes if it
fails. -/
theorem Registers.of_check {α : Type} [DecidableEq α] {what : String} {text : α → String}
    {first second : α} (hmet : p.met name d = p)
    (hagree : strict = true → first = second → ∀ what a b, ¬ Clashes p name d what a b)
    (hclash : strict = true → first ≠ second →
      Clashes p name d what (text first) (text second)) :
    Registers strict p name d ((check strict name what text first second).map fun _ => p) := by
  rcases check_cases strict name what text first second with
    ⟨hcheck, heq⟩ | ⟨hcheck, hstrict, hne⟩
  · rw [hcheck]
    exact .of_met_eq hmet fun hstrict => hagree hstrict (heq hstrict)
  · rw [hcheck]
    exact .clash hstrict (hclash hstrict hne)

/-- An entry that is there is not new, and gets no attributes. -/
theorem map_checked (checked : Except CompileError Unit) (name : String)
    (attributes : List ParamAttribute) :
    ((do checked; return (p, false) : Except CompileError (Params × Bool)).map fun r =>
      if r.2 then r.1.addAttributes name attributes else r.1) = checked.map fun _ => p := by
  cases checked <;> rfl

theorem registers_texture (strict : Bool) (p : Params) (name : String) (param : TextureParam)
    (attributes : List ParamAttribute) :
    Registers strict p name (.texture param attributes)
      ((p.addTexture strict name param).map fun r =>
        if r.2 then r.1.addAttributes name attributes else r.1) := by
  unfold addTexture
  cases hfirst : p.textures.get? name with
  | none =>
    refine .of_met_eq (by simp only [met, hfirst]; rfl) fun _ what a b h => ?_
    cases h
    simp_all
  | some first =>
    simp only [map_checked]
    refine .of_check (by simp only [met, hfirst]) (fun _ heq what a b h => ?_)
      fun _ hne => .texture hfirst hne
    cases h
    simp_all

theorem registers_buffer (strict : Bool) (p : Params) (name : String) (param : BufferParam)
    (attributes : List ParamAttribute) :
    Registers strict p name (.buffer param attributes)
      ((p.addBuffer strict name param).map fun r =>
        if r.2 then r.1.addAttributes name attributes else r.1) := by
  unfold addBuffer
  cases hfirst : p.buffers.get? name with
  | none =>
    refine .of_met_eq (by simp only [met, hfirst]; rfl) fun _ what a b h => ?_
    cases h
    simp_all
  | some first =>
    simp only [map_checked]
    refine .of_check (by simp only [met, hfirst]) (fun _ heq what a b h => ?_)
      fun _ hne => .buffer hfirst hne
    cases h
    simp_all

theorem registers_data (strict : Bool) (p : Params) (name : String) (param : DataParam)
    (attributes : List ParamAttribute) :
    Registers strict p name (.data param attributes)
      ((p.addData strict name param).map fun r =>
        if r.2 then r.1.addAttributes name attributes else r.1) := by
  unfold addData
  cases hfirst : p.data.get? name with
  | none =>
    refine .of_met_eq (by simp only [met, hfirst]; rfl) fun _ what a b h => ?_
    cases h <;> simp_all
  | some first =>
    rcases check_cases strict name "type" DataParamType.name first.type param.type with
      ⟨htype, hagree⟩ | ⟨htype, hstrict, hne⟩
    · -- The array size is looked at only if the types agree.
      simp only [htype]
      change Registers strict p name _ (Except.map _ (do
        check strict name "array size" toString first.arraySize param.arraySize
        return (p, false)))
      rw [map_checked]
      refine .of_check (by simp only [met, hfirst]) (fun hstrict heq what a b h => ?_)
        fun hstrict hne => .arraySize hfirst (hagree hstrict) hne
      cases h <;> simp_all
    · simp only [htype]
      exact .clash hstrict (.dataType hfirst hne)

/-- A sampler is entered under its names, unless its own name is taken. -/
theorem registerSampler_eq (r : Reflection) (p : Params) (u : Uniform) :
    registerSampler r p u = p.met u.ident (r.samplerDemand u) := by
  unfold registerSampler Reflection.samplerDemand
  cases r.samplers.get? u.ident with
  | none =>
    simp only [met, addSampler]
    cases hfirst : p.samplers.get? u.ident <;> simp [addSamplers, addSampler, hfirst]
  | some state =>
    by_cases hfirst : p.samplers.get? u.ident = none
    · simp only [met, Table.contains, hfirst, Option.isSome_none, Bool.false_eq_true, if_false]
      cases state.secondName.isEmpty <;> rfl
    · obtain ⟨first, hfirst⟩ := Option.ne_none_iff_exists'.1 hfirst
      simp only [met, Table.contains, hfirst, Option.isSome_some, if_true]

theorem registers_buffers (r : Reflection) (strict : Bool) (p : Params) (u : Uniform)
    (type : BufferType) :
    Registers strict p u.ident (r.bufferDemand u type) (registerBuffer r strict p u type) := by
  unfold registerBuffer Reflection.bufferDemand
  simp only [addCommonAttributes_eq]
  cases type.textureType? with
  | some t => exact registers_texture ..
  | none => exact registers_buffer ..

theorem registers_variable (r : Reflection) (strict : Bool) (p : Params) (u : Uniform)
    (type : DataType) :
    Registers strict p u.ident (r.variableDemand u type) (registerVariable r strict p u type) := by
  unfold registerVariable Reflection.variableDemand
  cases r.isBlockInternal u with
  | true => exact .of_met_eq rfl fun _ _ _ _ h => nomatch h
  | false =>
    -- The attribute of a sprite is added on its own, and in front of the common ones.
    have hadded : ∀ q : Params, (if !u.spriteUV.isEmpty && u.paramType type = .float4 then
          q.addAttribute u.ident (.spriteUV u.spriteUV) else q).addAttributes u.ident
            u.commonAttributes =
        q.addAttributes u.ident (u.variableAttributes (u.paramType type)) := by
      intro q
      unfold Uniform.variableAttributes addAttributes
      rw [List.foldl_append]
      split <;> rfl
    simp only [Bool.false_eq_true, if_false, addCommonAttributes_eq, hadded]
    have hdata := registers_data strict p u.ident ⟨u.ident, u.paramType type, u.arraySize, 0,
      (r.defaultOf? u).map (defaultBytes (u.paramType type))⟩
      (u.variableAttributes (u.paramType type))
    revert hdata
    rcases p.addData strict u.ident _ with e | ⟨q, _ | _⟩ <;> exact id

theorem registers_struct (strict : Bool) (p : Params) (name : String) (param : DataParam) :
    Registers strict p name (.data param []) (do
      let (q, _) ← p.addData strict name param
      return q) := by
  have hdata := registers_data strict p name param []
  revert hdata
  rcases p.addData strict name param with e | ⟨q, _ | _⟩ <;> exact id

/-- A uniform is registered by meeting its demand, unless the registration is strict and the demand
clashes. -/
theorem registers_uniform (r : Reflection) (strict : Bool) (p : Params) (u : Uniform) :
    Registers strict p u.ident (r.demand u) (registerUniform r strict p u) := by
  unfold registerUniform Reflection.demand
  cases u.marks.internal with
  | true => exact .of_met_eq rfl fun _ _ _ _ h => nomatch h
  | false =>
    simp only [Bool.false_eq_true, if_false]
    cases u.kind with
    -- Blocks and samplers are not compared with what is there.
    | uniformBuffer =>
      refine .of_met_eq rfl fun _ _ _ _ h => ?_
      simp only at h
      cases h
    | buffer type => exact registers_buffers ..
    | sampler =>
      refine .of_met_eq (registerSampler_eq r p u).symm fun _ _ _ _ h => ?_
      unfold Reflection.samplerDemand at h
      simp only at h
      split at h <;> cases h
    | «variable» type => exact registers_variable ..
    | struct index => exact registers_struct ..

end Params
end ShaderLang
