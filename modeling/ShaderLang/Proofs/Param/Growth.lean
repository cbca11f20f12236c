import Mathlib.Data.List.Nodup
import ShaderLang.Proofs.Param.Demand
import ShaderLang.Proofs.Table
/-!
# The first registration counts

Registering never changes an entry and never takes one away; a list of attributes only grows, at its
end and by what it does not have. So what has once been registered is met for good, and to register
it again changes nothing.

## Main definitions

* `Params.Grows` — tables that keep all there is
* `Params.Holds` — a demand for which there is an entry
* `Params.Meets` — what meeting a demand does

## Main results

* `Params.grows_met`, `Params.grows_register` — meeting a demand keeps all there is, and so does
  registering a program, also one that cannot be registered
* `Params.Holds.mono`, `Params.registerUniform_again` — a demand that is met stays met
* `Params.register_keeps_first` — the first registration counts, and a second one changes nothing
-/

namespace ShaderLang
namespace Params

/-- The attributes of a name. -/
def attributesOf (p : Params) (name : String) : List ParamAttribute :=
  (p.attributes.get? name).getD []

/-- A list grown at its end by values that it does not have. -/
def Appends (known all : List ParamAttribute) : Prop :=
  ∃ more, all = known ++ more ∧ more.Nodup ∧ ∀ a ∈ more, a ∉ known

theorem Appends.refl (known : List ParamAttribute) : Appends known known :=
  ⟨[], (List.append_nil _).symm, List.nodup_nil, fun _ h => nomatch h⟩

theorem Appends.trans {known all whole : List ParamAttribute} (h : Appends known all)
    (h' : Appends all whole) : Appends known whole := by
  obtain ⟨more, rfl, hnodup, hnew⟩ := h
  obtain ⟨others, rfl, hnodup', hnew'⟩ := h'
  refine ⟨more ++ others, List.append_assoc .., ?_, fun a ha => ?_⟩
  · refine hnodup.append hnodup' fun a ha ha' => ?_
    exact hnew' a ha' (List.mem_append_right _ ha)
  · rcases List.mem_append.1 ha with ha | ha
    · exact hnew a ha
    · exact fun hknown => hnew' a ha (List.mem_append_left _ hknown)

/-- A list without duplicates stays without them. -/
theorem Appends.nodup {known all : List ParamAttribute} (h : Appends known all)
    (hknown : known.Nodup) : all.Nodup := by
  obtain ⟨more, rfl, hnodup, hnew⟩ := h
  exact hknown.append hnodup fun a ha ha' => hnew a ha' ha

/-- All that is in the tables is kept. -/
structure Grows (p q : Params) : Prop where
  data : p.data.KeptIn q.data
  textures : p.textures.KeptIn q.textures
  samplers : p.samplers.KeptIn q.samplers
  buffers : p.buffers.KeptIn q.buffers
  blocks : p.blocks.KeptIn q.blocks
  attributes : ∀ name, Appends (p.attributesOf name) (q.attributesOf name)
  /-- No list of attributes is taken away. -/
  listed : ∀ name, (p.attributes.get? name).isSome → (q.attributes.get? name).isSome

variable {p q : Params} {r : Reflection} {u : Uniform} {strict : Bool} {name : String} {d : Demand}

theorem Grows.refl (p : Params) : p.Grows p :=
  ⟨.refl _, .refl _, .refl _, .refl _, .refl _, fun _ => .refl _, fun _ h => h⟩

theorem Grows.trans {s : Params} (h : p.Grows q) (h' : q.Grows s) : p.Grows s :=
  ⟨h.data.trans h'.data, h.textures.trans h'.textures, h.samplers.trans h'.samplers,
    h.buffers.trans h'.buffers, h.blocks.trans h'.blocks,
    fun name => (h.attributes name).trans (h'.attributes name),
    fun name hp => h'.listed name (h.listed name hp)⟩

/-- A fold of steps that keep all there is. -/
theorem Grows.foldl {α : Type} {f : Params → α → Params} (h : ∀ p a, Grows p (f p a)) (p : Params)
    (l : List α) : p.Grows (l.foldl f p) := by
  induction l generalizing p with
  | nil => exact .refl p
  | cons a l ih => exact (h p a).trans (ih (f p a))

theorem grows_addAttribute (p : Params) (name : String) (a : ParamAttribute) :
    p.Grows (p.addAttribute name a) := by
  unfold addAttribute
  simp only
  split
  · exact .refl p
  · next hnew =>
    refine ⟨.refl _, .refl _, .refl _, .refl _, .refl _, fun other => ?_, fun other hother => ?_⟩
    · simp only [attributesOf, Table.get?_insert]
      split
      · next heq =>
        subst heq
        refine ⟨[a], rfl, List.nodup_singleton a, fun b hb => ?_⟩
        rwa [List.mem_singleton.1 hb]
      · exact .refl _
    · rw [Table.get?_insert]
      split
      · rfl
      · exact hother

theorem grows_addAttributes (p : Params) (name : String) (attributes : List ParamAttribute) :
    p.Grows (p.addAttributes name attributes) :=
  .foldl (fun p a => grows_addAttribute p name a) p attributes

theorem grows_addSampler (p : Params) (name : String) (param : SamplerParam) :
    p.Grows (p.addSampler name param).1 := by
  unfold addSampler
  cases h : p.samplers.get? name with
  | some first => exact .refl p
  | none =>
    exact ⟨.refl _, .refl _, Table.keptIn_insert h, .refl _, .refl _, fun _ => .refl _,
      fun _ h => h⟩

/-! ## What meeting a demand does -/

/-- There is an entry for a demand. -/
def Holds (p : Params) (name : String) : Demand → Prop
  | .nothing => True
  | .block _ => ∃ first, p.blocks.get? name = some first
  | .sampler _ _ => ∃ first, p.samplers.get? name = some first
  | .texture _ _ => ∃ first, p.textures.get? name = some first
  | .buffer _ _ => ∃ first, p.buffers.get? name = some first
  | .data _ _ => ∃ first, p.data.get? name = some first

/-- Meeting a demand does nothing where there is an entry for it, and makes one elsewhere. -/
inductive Meets (p : Params) (name : String) : Demand → Params → Prop
  | stays {d : Demand} (h : p.Holds name d) : Meets p name d p
  | block {param : ParamBlock} (h : p.blocks.get? name = none) :
      Meets p name (.block param) { p with blocks := p.blocks.insert name param }
  | sampler {param : SamplerParam} {otherNames : List String} (h : p.samplers.get? name = none) :
      Meets p name (.sampler param otherNames) (p.addSamplers param (otherNames ++ [name]))
  | texture {param : TextureParam} {attributes : List ParamAttribute}
      (h : p.textures.get? name = none) :
      Meets p name (.texture param attributes)
        ({ p with textures := p.textures.insert name param }.addAttributes name attributes)
  | buffer {param : BufferParam} {attributes : List ParamAttribute}
      (h : p.buffers.get? name = none) :
      Meets p name (.buffer param attributes)
        ({ p with buffers := p.buffers.insert name param }.addAttributes name attributes)
  | data {param : DataParam} {attributes : List ParamAttribute} (h : p.data.get? name = none) :
      Meets p name (.data param attributes)
        ({ p with data := p.data.insert name param }.addAttributes name attributes)

theorem meets_met (p : Params) (name : String) (d : Demand) : Meets p name d (p.met name d) := by
  cases d with
  | nothing => exact .stays trivial
  -- A name that its table has already is passed over.
  | block param =>
    unfold met addBlock
    cases h : p.blocks.get? name with
    | some first => exact .stays ⟨first, h⟩
    | none => exact .block h
  | sampler param otherNames =>
    unfold met
    cases h : p.samplers.get? name with
    | some first => exact .stays ⟨first, h⟩
    | none => exact .sampler h
  | texture param attributes =>
    unfold met
    cases h : p.textures.get? name with
    | some first => exact .stays ⟨first, h⟩
    | none => exact .texture h
  | buffer param attributes =>
    unfold met
    cases h : p.buffers.get? name with
    | some first => exact .stays ⟨first, h⟩
    | none => exact .buffer h
  | data param attributes =>
    unfold met
    cases h : p.data.get? name with
    | some first => exact .stays ⟨first, h⟩
    | none => exact .data h

theorem Meets.grows (h : Meets p name d q) : p.Grows q := by
  cases h with
  | stays => exact .refl p
  | block h =>
    exact ⟨.refl _, .refl _, .refl _, .refl _, Table.keptIn_insert h, fun _ => .refl _,
      fun _ h => h⟩
  | sampler => exact .foldl (fun p name => grows_addSampler p name _) p _
  -- An entry with attributes is made first and gets them then.
  | texture h =>
    refine Grows.trans ?_ (grows_addAttributes _ name _)
    exact ⟨.refl _, Table.keptIn_insert h, .refl _, .refl _, .refl _, fun _ => .refl _,
      fun _ h => h⟩
  | buffer h =>
    refine Grows.trans ?_ (grows_addAttributes _ name _)
    exact ⟨.refl _, .refl _, .refl _, Table.keptIn_insert h, .refl _, fun _ => .refl _,
      fun _ h => h⟩
  | data h =>
    refine Grows.trans ?_ (grows_addAttributes _ name _)
    exact ⟨Table.keptIn_insert h, .refl _, .refl _, .refl _, .refl _, fun _ => .refl _,
      fun _ h => h⟩

/-- Meeting a demand keeps all there is. -/
theorem grows_met (p : Params) (name : String) (d : Demand) : p.Grows (p.met name d) :=
  (meets_met p name d).grows

/-! ## A demand that is met stays met -/

theorem Holds.mono (h : p.Holds name d) (hq : p.Grows q) : q.Holds name d := by
  cases d with
  | nothing => trivial
  | block => exact h.imp fun first => hq.blocks name first
  | sampler => exact h.imp fun first => hq.samplers name first
  | texture => exact h.imp fun first => hq.textures name first
  | buffer => exact h.imp fun first => hq.buffers name first
  | data => exact h.imp fun first => hq.data name first

theorem Holds.met_eq (h : p.Holds name d) : p.met name d = p := by
  cases d with
  | nothing => rfl
  | block | sampler | texture | buffer | data =>
    obtain ⟨first, hfirst⟩ := h
    simp only [met, addBlock, hfirst]

theorem exists_addSampler (p : Params) (name : String) (param : SamplerParam) :
    ∃ first, (p.addSampler name param).1.samplers.get? name = some first := by
  unfold addSampler
  cases h : p.samplers.get? name with
  | some first => exact ⟨first, h⟩
  | none => exact ⟨param, by simp⟩

theorem textures_met (p : Params) (name : String) (param : TextureParam)
    (attributes : List ParamAttribute) :
    (p.met name (.texture param attributes)).textures.get? name =
      some ((p.textures.get? name).getD param) := by
  unfold met
  cases h : p.textures.get? name with
  | some first => exact h
  | none => exact (grows_addAttributes _ name attributes).textures _ _ (by simp)

theorem buffers_met (p : Params) (name : String) (param : BufferParam)
    (attributes : List ParamAttribute) :
    (p.met name (.buffer param attributes)).buffers.get? name =
      some ((p.buffers.get? name).getD param) := by
  unfold met
  cases h : p.buffers.get? name with
  | some first => exact h
  | none => exact (grows_addAttributes _ name attributes).buffers _ _ (by simp)

theorem data_met (p : Params) (name : String) (param : DataParam)
    (attributes : List ParamAttribute) :
    (p.met name (.data param attributes)).data.get? name =
      some ((p.data.get? name).getD param) := by
  unfold met
  cases h : p.data.get? name with
  | some first => exact h
  | none => exact (grows_addAttributes _ name attributes).data _ _ (by simp)

theorem Meets.holds (h : Meets p name d q) : q.Holds name d := by
  cases h with
  | stays h => exact h
  | @block param => exact ⟨param, by simp⟩
  | sampler =>
    -- Its own name is the last one under which a sampler is entered.
    simp only [addSamplers, List.foldl_append]
    exact exists_addSampler _ name _
  | @texture param => exact ⟨param, (grows_addAttributes _ name _).textures _ _ (by simp)⟩
  | @buffer param => exact ⟨param, (grows_addAttributes _ name _).buffers _ _ (by simp)⟩
  | @data param => exact ⟨param, (grows_addAttributes _ name _).data _ _ (by simp)⟩

theorem holds_met (p : Params) (name : String) (d : Demand) : (p.met name d).Holds name d :=
  (meets_met p name d).holds

section

variable {what a b : String}

/-- An entry that is there is the one to agree with, however the tables grow. -/
theorem Clashes.of_grows (h : Clashes q name d what a b) (hp : p.Holds name d) (hq : p.Grows q) :
    Clashes p name d what a b := by
  cases h with
  -- What has grown has the same first entry.
  | texture hfirst hne =>
    obtain ⟨first, hp⟩ := hp
    obtain rfl := Option.some.inj (hfirst.symm.trans (hq.textures _ _ hp))
    exact .texture hp hne
  | buffer hfirst hne =>
    obtain ⟨first, hp⟩ := hp
    obtain rfl := Option.some.inj (hfirst.symm.trans (hq.buffers _ _ hp))
    exact .buffer hp hne
  | dataType hfirst hne =>
    obtain ⟨first, hp⟩ := hp
    obtain rfl := Option.some.inj (hfirst.symm.trans (hq.data _ _ hp))
    exact .dataType hp hne
  | arraySize hfirst heq hne =>
    obtain ⟨first, hp⟩ := hp
    obtain rfl := Option.some.inj (hfirst.symm.trans (hq.data _ _ hp))
    exact .arraySize hp heq hne

/-- What differs from what is asked for was there before. -/
theorem eq_some_of_getD_ne {α β : Type} {first? : Option α} {param : α} (f : α → β)
    (h : f (first?.getD param) ≠ f param) : first? = some (first?.getD param) := by
  cases first? with
  | none => exact absurd rfl h
  | some first => rfl

/-- An entry that is made for a demand agrees with it. -/
theorem Clashes.of_met (h : Clashes (p.met name d) name d what a b) :
    Clashes p name d what a b := by
  cases h with
  | texture hfirst hne =>
    obtain rfl := Option.some.inj ((textures_met ..).symm.trans hfirst)
    exact .texture (eq_some_of_getD_ne TextureParam.type hne) hne
  | buffer hfirst hne =>
    obtain rfl := Option.some.inj ((buffers_met ..).symm.trans hfirst)
    exact .buffer (eq_some_of_getD_ne BufferParam.type hne) hne
  | dataType hfirst hne =>
    obtain rfl := Option.some.inj ((data_met ..).symm.trans hfirst)
    exact .dataType (eq_some_of_getD_ne DataParam.type hne) hne
  | arraySize hfirst heq hne =>
    obtain rfl := Option.some.inj ((data_met ..).symm.trans hfirst)
    exact .arraySize (eq_some_of_getD_ne DataParam.arraySize hne) heq hne

end

/-! ## Registering keeps all there is -/

theorem grows_registerUniform (h : registerUniform r strict p u = .ok q) : p.Grows q := by
  have hcases := registers_uniform r strict p u
  rw [h] at hcases
  cases hcases with
  | met => exact grows_met p _ _

/-- A uniform that was registered is passed over in all tables that grew from there. -/
theorem registerUniform_again {s : Params} (h : registerUniform r strict p u = .ok q)
    (hs : q.Grows s) : registerUniform r strict s u = .ok s := by
  have hcases := registers_uniform r strict p u
  rw [h] at hcases
  cases hcases with
  | met hnone =>
    have hholds := holds_met p u.ident (r.demand u)
    have hagain := registers_uniform r strict s u
    generalize registerUniform r strict s u = result at hagain
    cases hagain with
    | met => rw [(hholds.mono hs).met_eq]
    | clash hstrict hclash =>
      exact absurd (hclash.of_grows hholds hs).of_met (hnone hstrict _ _ _)

theorem grows_registerAll (r : Reflection) (strict : Bool) (p : Params) (us : List Uniform) :
    p.Grows (registerAll r strict p us).1 := by
  induction us generalizing p with
  | nil => exact .refl p
  | cons u us ih =>
    unfold registerAll
    split
    · next q hq => exact (grows_registerUniform hq).trans (ih q)
    · exact .refl p

/-- Registering a program keeps all there is, also when it cannot be registered. -/
theorem grows_register (p : Params) (strict : Bool) (r : Reflection) :
    p.Grows (p.register strict r).1 :=
  grows_registerAll r strict p r.uniforms

theorem registerAll_again {us : List Uniform} {s : Params}
    (h : registerAll r strict p us = (q, none)) (hs : q.Grows s) :
    registerAll r strict s us = (s, none) := by
  induction us generalizing p with
  | nil => rfl
  | cons u us ih =>
    unfold registerAll at h
    split at h
    · next p' hp' =>
      -- What was registered first is in the tables to which the others lead.
      have hgrows := grows_registerAll r strict p' us
      rw [h] at hgrows
      rw [registerAll, registerUniform_again hp' (hgrows.trans hs)]
      exact ih h
    · cases h

/-- The first registration counts: whatever a program declares, and also if it cannot be registered,
every entry stays as it is, none is taken away, and attributes are only added, each at most once. A
program that was registered can be registered again, and this changes nothing. -/
theorem register_keeps_first (p : Params) (strict : Bool) (r : Reflection) :
    p.Grows (p.register strict r).1 ∧
      (∀ name, (p.attributesOf name).Nodup →
        ((p.register strict r).1.attributesOf name).Nodup) ∧
      ∀ q, p.register strict r = (q, none) → q.register strict r = (q, none) := by
  have hgrows := grows_register p strict r
  refine ⟨hgrows, fun name => (hgrows.attributes name).nodup, fun q h => ?_⟩
  exact registerAll_again h (.refl q)

end Params
end ShaderLang
