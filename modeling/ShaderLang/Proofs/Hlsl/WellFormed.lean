import Mathlib.Data.List.Nodup
import ShaderLang.Hlsl.Reflect
import ShaderLang.Proofs.Table
/-!
# References within a reflection

A reflection refers to its own entries by their positions: a variable to its default and to the
constant buffer it lies in, a variable or a member of a struct type to the struct. The reflection of
a program is put together declaration by declaration. Each of them adds its entries behind all
others and refers to what is there already, so that no reference leads nowhere and no struct leads
back to itself.

## Main definitions

* `Reflection.WellFormed` — all references lead to entries that are there

## Main results

* `Reflection.WellFormed.addUniform` — one more uniform that refers to what is there
* `Hlsl.Reader.wellFormed_declare` — one more declaration
* `Hlsl.reflect?_wellFormed` — the reflection of a program
-/

namespace ShaderLang

/-! ## References -/

namespace Reflection

/-- A struct is nested in those behind it only. -/
def Descending (structs : List StructInfo) : Prop :=
  ∀ (k : Nat) (info : StructInfo), structs[k]? = some info →
    ∀ m ∈ info.members, ∀ j, m.kind = .struct j → j < k

/-- A constant buffer of the reflection, with a uniform among the given ones that stands for it. -/
def Holds (r : Reflection) (uniforms : List Uniform) (i : Nat) : Prop :=
  ∃ b, r.constantBuffers[i]? = some b ∧
    ∃ v ∈ uniforms, v.kind = .uniformBuffer ∧ v.ident = b.ident

/-- All references lead to entries that are there. -/
structure WellFormed (r : Reflection) : Prop where
  defaults : ∀ u ∈ r.uniforms, ∀ i, u.default? = some i → i < r.defaults.length
  /-- A variable comes behind the uniform of the constant buffer it lies in. -/
  blocks : ∀ before u after, r.uniforms = before ++ u :: after → ∀ i, u.block? = some i →
    r.Holds before i
  structs : ∀ u ∈ r.uniforms, ∀ i, u.kind = .struct i → i < r.structs.length
  members : Descending r.structs
  functions : r.functions.Nodup
  /-- Sampler states are those of samplers. -/
  samplers : ∀ name, (r.samplers.get? name).isSome →
    ∃ u ∈ r.uniforms, u.kind = .sampler ∧ u.ident = name

variable {r : Reflection} {u : Uniform} {i : Nat}

theorem wellFormed_empty : empty.WellFormed where
  defaults := List.forall_mem_nil _
  blocks := by
    intro before u after h
    cases before <;> cases h
  structs := List.forall_mem_nil _
  members := by
    intro k info h
    cases h
  functions := List.nodup_nil
  samplers := by
    intro name h
    cases h

theorem Holds.mono {before uniforms : List Uniform} {others : List Binding}
    (h : r.Holds before i) (hsub : before ⊆ uniforms) :
    { r with constantBuffers := r.constantBuffers ++ others }.Holds uniforms i := by
  obtain ⟨b, hb, v, hv, hbuffer⟩ := h
  refine ⟨b, ?_, v, hsub hv, hbuffer⟩
  rw [List.getElem?_append_left (List.getElem?_eq_some_iff.1 hb).1]
  exact hb

/-- A member of a list with one more at its end is one of the list, or the new one. -/
theorem split_concat {α : Type} {before after xs : List α} {x y : α}
    (h : xs ++ [y] = before ++ x :: after) :
    (∃ more, xs = before ++ x :: more) ∨ before = xs ∧ x = y := by
  rcases List.eq_nil_or_concat after with rfl | ⟨more, z, rfl⟩
  · obtain ⟨hbefore, hx⟩ := List.append_inj' h rfl
    exact .inr ⟨hbefore.symm, (List.singleton_inj.1 hx).symm⟩
  · rw [List.concat_eq_append, ← List.cons_append, ← List.append_assoc] at h
    exact .inl ⟨more, (List.append_inj' h rfl).1⟩

/-- One more uniform that refers to what is there, and one more default for it. -/
theorem WellFormed.addUniform (h : r.WellFormed) (default? : Option DefaultValue)
    (hdefault : ∀ i, u.default? = some i → i < (r.defaults ++ default?.toList).length)
    (hblock : ∀ i, u.block? = some i → r.Holds r.uniforms i)
    (hstruct : ∀ i, u.kind = .struct i → i < r.structs.length) :
    { r with
      uniforms := r.uniforms ++ [u]
      defaults := r.defaults ++ default?.toList }.WellFormed where
  defaults := by
    refine List.forall_mem_append.2 ⟨fun v hv i hi => ?_, List.forall_mem_singleton.2 hdefault⟩
    exact Nat.lt_of_lt_of_le (h.defaults v hv i hi) (by simp)
  blocks := by
    intro before v after hsplit i hi
    rcases split_concat hsplit with ⟨more, hmore⟩ | ⟨rfl, rfl⟩
    · exact h.blocks before v more hmore i hi
    · exact hblock i hi
  structs := List.forall_mem_append.2 ⟨h.structs, List.forall_mem_singleton.2 hstruct⟩
  members := h.members
  functions := h.functions
  samplers := fun name hname => by
    obtain ⟨v, hv, hsampler⟩ := h.samplers name hname
    exact ⟨v, List.mem_append_left _ hv, hsampler⟩

/-- One more constant buffer. -/
theorem WellFormed.addBuffer (h : r.WellFormed) (b : Binding) :
    { r with constantBuffers := r.constantBuffers ++ [b] }.WellFormed where
  defaults := h.defaults
  blocks := fun before v after hsplit i hi => (h.blocks before v after hsplit i hi).mono fun _ => id
  structs := h.structs
  members := h.members
  functions := h.functions
  samplers := h.samplers

/-- One more struct, in which structs that are there are nested. -/
theorem WellFormed.addStruct {info : StructInfo} (h : r.WellFormed)
    (hinfo : ∀ m ∈ info.members, ∀ j, m.kind = .struct j → j < r.structs.length) :
    { r with structs := r.structs ++ [info] }.WellFormed where
  defaults := h.defaults
  blocks := h.blocks
  structs := fun v hv i hi => Nat.lt_of_lt_of_le (h.structs v hv i hi) (by simp)
  members := by
    intro k other hk
    -- A struct that was there, the new one, or none.
    rcases Nat.lt_trichotomy k r.structs.length with hlt | rfl | hgt
    · rw [List.getElem?_append_left hlt] at hk
      exact h.members k other hk
    · rw [List.getElem?_concat_length] at hk
      exact Option.some.inj hk ▸ hinfo
    · have hend : (r.structs ++ [info])[k]? = none :=
        List.getElem?_eq_none (by rw [List.length_append]; exact hgt)
      cases hend.symm.trans hk
  functions := h.functions
  samplers := h.samplers

/-- Other sampler states, all of samplers that are there. -/
theorem WellFormed.withSamplers {samplers : Table SamplerState} (h : r.WellFormed)
    (hsamplers : ∀ name, (samplers.get? name).isSome →
      ∃ u ∈ r.uniforms, u.kind = .sampler ∧ u.ident = name) :
    { r with samplers }.WellFormed :=
  { h with samplers := hsamplers }

end Reflection

/-! ## Declarations -/

namespace Hlsl

variable {structs : List StructInfo} {name : String} {i : Nat}

theorem lt_of_structIndex? (h : structIndex? structs name = some i) : i < structs.length :=
  (List.findIdx?_eq_some_iff_findIdx_eq.1 h).1

/-- Structs are nested in a new one only if they are there. -/
theorem lt_of_mem_membersOf {block : List Char} {m : StructMember}
    (hm : m ∈ membersOf structs block) (hi : m.kind = .struct i) : i < structs.length := by
  obtain ⟨d, -, hd⟩ := List.mem_filterMap.1 hm
  obtain ⟨kind, hkind, rfl⟩ := Option.map_eq_some_iff.1 hd
  dsimp only at hi
  subst hi
  split at hkind
  · cases hkind
  · obtain ⟨j, hj, hji⟩ := Option.map_eq_some_iff.1 hkind
    cases hji
    exact lt_of_structIndex? hj

namespace Reader

variable {r : Reader} {u : Uniform} {d : Declared}

theorem reflection_addUniform (r : Reader) (hu : u.default? = none)
    (default? : Option DefaultValue) :
    (r.addUniform u default?).reflection =
      { r.reflection with
        uniforms := r.reflection.uniforms ++
          [{ u with default? := default?.map fun _ => r.reflection.defaults.length }]
        defaults := r.reflection.defaults ++ default?.toList } := by
  obtain ⟨ident, kind, marks, shownName, arraySize, _, block?, spriteUV⟩ := u
  cases hu
  cases default? with
  | none => simp [addUniform]
  | some v => rfl

/-- A uniform that is declared has a default of its own, if it has one. -/
theorem wellFormed_addUniform (h : r.reflection.WellFormed) (hu : u.default? = none)
    (hblock : ∀ i, u.block? = some i → r.reflection.Holds r.reflection.uniforms i)
    (hstruct : ∀ i, u.kind = .struct i → i < r.reflection.structs.length)
    (default? : Option DefaultValue) : (r.addUniform u default?).reflection.WellFormed := by
  rw [reflection_addUniform r hu]
  refine h.addUniform default? (fun i hi => ?_) hblock hstruct
  cases default? with
  | none => cases hi
  | some v =>
    cases hi
    simp

/-- A uniform at the top level. -/
theorem wellFormed_declared (h : r.reflection.WellFormed) (d : Declared) (kind : UniformKind)
    (hkind : ∀ i, kind = .struct i → i < r.reflection.structs.length)
    (default? : Option DefaultValue) :
    (r.addUniform (d.uniform kind) default?).reflection.WellFormed := by
  refine wellFormed_addUniform h rfl (fun i hi => ?_) hkind default?
  cases hi

/-- What is added to uniforms is added behind them. -/
theorem holds_addUniform (hu : u.default? = none) (default? : Option DefaultValue)
    (h : r.reflection.Holds r.reflection.uniforms i) :
    (r.addUniform u default?).reflection.Holds (r.addUniform u default?).reflection.uniforms i := by
  rw [reflection_addUniform r hu]
  obtain ⟨b, hb, v, hv, hbuffer⟩ := h
  exact ⟨b, hb, v, List.mem_append_left _ hv, hbuffer⟩

/-- A variable in a constant buffer that is there. -/
theorem wellFormed_member (h : r.reflection.WellFormed)
    (hblock : r.reflection.Holds r.reflection.uniforms i) (d : Declared) :
    (member i r d).reflection.WellFormed ∧
      (member i r d).reflection.Holds (member i r d).reflection.uniforms i := by
  have hi (j : Nat) (hj : some i = some j) : r.reflection.Holds r.reflection.uniforms j :=
    Option.some.inj hj ▸ hblock
  unfold member
  split
  · refine ⟨wellFormed_addUniform h rfl hi (fun k hk => ?_) _, holds_addUniform rfl _ hblock⟩
    cases hk
  · split
    · next j hj =>
      refine ⟨wellFormed_addUniform h rfl hi (fun k hk => ?_) _, holds_addUniform rfl _ hblock⟩
      cases hk
      exact lt_of_structIndex? hj
    · exact ⟨h, hblock⟩

theorem wellFormed_addConstantBuffer (h : r.reflection.WellFormed) (d : Declared)
    (block : List Char) : (r.addConstantBuffer d block).reflection.WellFormed := by
  unfold addConstantBuffer
  dsimp only
  generalize (allocate r.nextBuffer d.slot?).1 = location
  -- The uniform of the buffer is there before the variables in it are read.
  generalize hstart : Reader.addUniform _ (d.uniform .uniformBuffer) none = start
  have hwell : start.reflection.WellFormed := by
    rw [← hstart]
    exact wellFormed_declared (h.addBuffer ⟨d.name, location⟩) d .uniformBuffer nofun none
  have hholds : start.reflection.Holds start.reflection.uniforms
      r.reflection.constantBuffers.length := by
    rw [← hstart, reflection_addUniform _ rfl]
    exact ⟨⟨d.name, location⟩, List.getElem?_concat_length, d.uniform .uniformBuffer,
      List.mem_append_right _ (List.mem_singleton_self _), rfl, rfl⟩
  clear hstart
  generalize declarations block = ds
  induction ds generalizing start with
  | nil => exact hwell
  | cons d ds ih =>
    obtain ⟨hwell, hholds⟩ := wellFormed_member hwell hholds d
    exact ih _ hwell hholds

theorem wellFormed_addSampler (h : r.reflection.WellFormed) (d : Declared)
    (block? : Option (List Char)) : (r.addSampler d block?).reflection.WellFormed := by
  have hadded := wellFormed_declared h d .sampler nofun none
  unfold addSampler
  dsimp only
  split
  · refine hadded.withSamplers fun name hname => ?_
    rw [Table.get?_insert] at hname
    split at hname
    · next hd =>
      rw [reflection_addUniform r rfl]
      exact ⟨_, List.mem_append_right _ (List.mem_singleton_self _), rfl, hd⟩
    · exact hadded.samplers name hname
  · exact hadded

theorem wellFormed_addBuffer (h : r.reflection.WellFormed) (d : Declared) (type : BufferType) :
    (r.addBuffer d type).reflection.WellFormed := by
  unfold addBuffer
  dsimp only
  split
  · refine wellFormed_declared ?_ d (.buffer type) nofun _
    exact { h with }
  · refine wellFormed_declared ?_ d (.buffer type) nofun _
    exact { h with }

theorem wellFormed_addVariable (h : r.reflection.WellFormed) (d : Declared) :
    (r.addVariable d).reflection.WellFormed := by
  unfold addVariable
  split
  · next type _ => exact wellFormed_declared h d (.variable type) nofun _
  · split
    · next j hj =>
      refine wellFormed_declared h d (.struct j) (fun k hk => ?_) _
      cases hk
      exact lt_of_structIndex? hj
    · exact h

/-- One more declaration keeps all references. -/
theorem wellFormed_declare (h : r.reflection.WellFormed) (text : List Char) (d : Declared) :
    (declare text r d).reflection.WellFormed := by
  unfold declare
  dsimp only
  split
  · exact h
  · split
    · exact h.addStruct fun m hm j => lt_of_mem_membersOf hm
    · exact wellFormed_addConstantBuffer h d _
    · exact wellFormed_addConstantBuffer h d _
    · exact wellFormed_addSampler h d _
    · exact wellFormed_addSampler h d _
    · exact wellFormed_addSampler h d _
    · split
      · exact wellFormed_addBuffer h d _
      · exact wellFormed_addVariable h d

theorem wellFormed_foldl (h : r.reflection.WellFormed) (text : List Char) (ds : List Declared) :
    (ds.foldl (declare text) r).reflection.WellFormed := by
  induction ds generalizing r with
  | nil => exact h
  | cons d ds ih => exact ih (wellFormed_declare h text d)

end Reader

theorem nodup_distinct (names : List String) : (distinct names).Nodup := by
  unfold distinct
  suffices h : ∀ seen : List String, seen.Nodup →
      (names.foldl (fun seen name => if name ∈ seen then seen else seen ++ [name]) seen).Nodup from
    h [] List.nodup_nil
  induction names with
  | nil => exact fun seen hseen => hseen
  | cons name names ih =>
    intro seen hseen
    refine ih _ ?_
    dsimp only
    split
    · exact hseen
    · next hnew => exact List.nodup_append.2 ⟨hseen, List.nodup_singleton name, by grind⟩

/-- All references of the reflection of a program lead to entries that are there. -/
theorem reflect?_wellFormed {code : String} {start : Nat} {r : Reflection}
    (h : reflect? code start = some r) : r.WellFormed := by
  obtain ⟨top, -, rfl⟩ := Option.map_eq_some_iff.1 h
  have hread := Reader.wellFormed_foldl (r := .fresh start) Reflection.wellFormed_empty
    (uncommented code.toList) (declarations top)
  exact { hread with functions := nodup_distinct _ }

/-- A struct in another one, which is the type of a variable in a constant buffer, and a default in
front of a sampler with a state. -/
def nestedStructs : String :=
  "struct L \x7b int a; \x7d; struct S \x7b L l; \x7d; cbuffer B \x7b S s; int n = 1; \x7d " ++
    "sampler T \x7b Filter = ANISOTROPIC; \x7d; void f() \x7b \x7d"

theorem reflect?_wellFormed_nested :
    ∃ r, reflect? nestedStructs 0 = some r ∧
      r.uniforms.map (fun u => (u.kind, u.block?, u.default?)) =
        [(.uniformBuffer, none, none), (.struct 1, some 0, none), (.variable .int, some 0, some 0),
          (.sampler, none, none)] ∧
      (r.samplers.get? "T").isSome ∧ r.WellFormed := by
  have hread : (reflect? nestedStructs 0).map (fun r =>
        (r.uniforms.map fun u => (u.kind, u.block?, u.default?), (r.samplers.get? "T").isSome)) =
      some ([(.uniformBuffer, none, none), (.struct 1, some 0, none),
        (.variable .int, some 0, some 0), (.sampler, none, none)], true) := by decide +kernel
  obtain ⟨r, hr, hparts⟩ := Option.map_eq_some_iff.1 hread
  obtain ⟨huniforms, hsampler⟩ := Prod.mk.inj hparts
  exact ⟨r, hr, huniforms, hsampler, reflect?_wellFormed hr⟩

end Hlsl
end ShaderLang
