import ShaderLang.Proofs.Param.Growth
import ShaderLang.Proofs.Param.Shape
import ShaderLang.Proofs.Param.Strictness
/-!
# What strict registration detects

A strict registration compares an entry that is asked for with the one that its table has under the
same name. So the entries that declarations of a name ask for have one shape wherever they are, in
one program or in several, if they are for one table; and this is all that is asked of them. Of
declarations of a name for different tables none is compared with the other: a texture and a
variable may share a name, and each gets its entry. Declarations for one table may differ in what
shapes do not tell, as arrays of textures may in their sizes.

## Main definitions

* `Reflection.Declares` — some program declares a name with a shape

## Main results

* `Params.origin_metAll` — every entry was declared, under its name or as another name of a sampler
* `Params.shape?_metAll_of_agrees` — where nothing clashes, every declaration has its entry
* `Params.strict_accepts_agreeing` — what is registered strictly, which entries there are then, and
  which declarations agree
* `Params.strict_misses_other_table` — a name that is declared for two tables
-/

namespace ShaderLang

/-- The names under which an entry is made beside its own. -/
def Demand.otherNames : Demand → List String
  | sampler _ names => names
  | _ => []

namespace Reflection

/-- Some program declares the name, and asks for an entry of the shape. -/
def Declares (row : List (Reflection × Uniform)) (name : String) (s : ParamShape) : Prop :=
  ∃ x ∈ row, x.2.ident = name ∧ (x.1.demand x.2).shape? = some s

/-- The name is another name of a sampler that some program declares. -/
def DeclaresBeside (row : List (Reflection × Uniform)) (name : String) : Prop :=
  ∃ x ∈ row, name ∈ (x.1.demand x.2).otherNames

variable {row : List (Reflection × Uniform)} {x : Reflection × Uniform} {name : String}
  {s : ParamShape}

theorem Declares.cons (h : Declares row name s) : Declares (x :: row) name s := by
  obtain ⟨y, hy, hname, hs⟩ := h
  exact ⟨y, List.mem_cons_of_mem _ hy, hname, hs⟩

theorem DeclaresBeside.cons (h : DeclaresBeside row name) : DeclaresBeside (x :: row) name := by
  obtain ⟨y, hy, hname⟩ := h
  exact ⟨y, List.mem_cons_of_mem _ hy, hname⟩

end Reflection

namespace Params

open Reflection (Declares DeclaresBeside)

/-- The shape of the entry of a name in a table. -/
def shape? (p : Params) (name : String) : ParamTable → Option ParamShape
  | .data => (p.data.get? name).map fun e => .data e.type e.arraySize
  | .textures => (p.textures.get? name).map fun e => .texture e.type
  | .samplers => (p.samplers.get? name).map fun _ => .sampler
  | .buffers => (p.buffers.get? name).map fun e => .buffer e.type
  | .blocks => (p.blocks.get? name).map fun _ => .block

variable {p q : Params} {name other : String} {d : Demand} {t : ParamTable} {s first : ParamShape}
  {x : Reflection × Uniform} {row : List (Reflection × Uniform)}

theorem table_of_shape? (h : p.shape? name t = some s) : s.table = t := by
  cases t <;> obtain ⟨e, -, rfl⟩ := Option.map_eq_some_iff.1 h <;> rfl

theorem shape?_empty (name : String) (t : ParamTable) : empty.shape? name t = none := by
  cases t <;> rfl

theorem Grows.shape? (h : p.Grows q) (hp : p.shape? name t = some s) :
    q.shape? name t = some s := by
  cases t with
  | data =>
    obtain ⟨e, he, rfl⟩ := Option.map_eq_some_iff.1 hp
    exact Option.map_eq_some_iff.2 ⟨e, h.data name e he, rfl⟩
  | textures =>
    obtain ⟨e, he, rfl⟩ := Option.map_eq_some_iff.1 hp
    exact Option.map_eq_some_iff.2 ⟨e, h.textures name e he, rfl⟩
  | samplers =>
    obtain ⟨e, he, rfl⟩ := Option.map_eq_some_iff.1 hp
    exact Option.map_eq_some_iff.2 ⟨e, h.samplers name e he, rfl⟩
  | buffers =>
    obtain ⟨e, he, rfl⟩ := Option.map_eq_some_iff.1 hp
    exact Option.map_eq_some_iff.2 ⟨e, h.buffers name e he, rfl⟩
  | blocks =>
    obtain ⟨e, he, rfl⟩ := Option.map_eq_some_iff.1 hp
    exact Option.map_eq_some_iff.2 ⟨e, h.blocks name e he, rfl⟩

/-! ## Clashes are differences in shape -/

/-- A uniform clashes just if the table it is for has an entry of another shape under its name. -/
theorem exists_rejects_iff :
    (∃ e, Rejects p x e) ↔ ∃ s first, (x.1.demand x.2).shape? = some s ∧
      p.shape? x.2.ident s.table = some first ∧ first ≠ s := by
  constructor
  · rintro ⟨-, ⟨h⟩⟩
    generalize x.1.demand x.2 = d at h
    cases h with
    | texture hfirst hne =>
      exact ⟨_, _, rfl, Option.map_eq_some_iff.2 ⟨_, hfirst, rfl⟩,
        fun h => hne (ParamShape.texture.inj h)⟩
    | buffer hfirst hne =>
      exact ⟨_, _, rfl, Option.map_eq_some_iff.2 ⟨_, hfirst, rfl⟩,
        fun h => hne (ParamShape.buffer.inj h)⟩
    | dataType hfirst hne =>
      exact ⟨_, _, rfl, Option.map_eq_some_iff.2 ⟨_, hfirst, rfl⟩,
        fun h => hne (ParamShape.data.inj h).1⟩
    | arraySize hfirst _ hne =>
      exact ⟨_, _, rfl, Option.map_eq_some_iff.2 ⟨_, hfirst, rfl⟩,
        fun h => hne (ParamShape.data.inj h).2⟩
  · rintro ⟨s, first, hs, hfirst, hne⟩
    -- The entry that is there is in the table of the demand, so that it has the form to compare.
    have hclash : ∃ what a b, Clashes p x.2.ident (x.1.demand x.2) what a b := by
      generalize x.1.demand x.2 = d at hs
      cases d with
      | nothing => cases hs
      | sampler | block =>
        cases hs
        obtain ⟨e, -, rfl⟩ := Option.map_eq_some_iff.1 hfirst
        exact absurd rfl hne
      | texture param =>
        cases hs
        obtain ⟨e, he, rfl⟩ := Option.map_eq_some_iff.1 hfirst
        exact ⟨_, _, _, .texture he fun h => hne (congrArg _ h)⟩
      | buffer param =>
        cases hs
        obtain ⟨e, he, rfl⟩ := Option.map_eq_some_iff.1 hfirst
        exact ⟨_, _, _, .buffer he fun h => hne (congrArg _ h)⟩
      | data param =>
        cases hs
        obtain ⟨e, he, rfl⟩ := Option.map_eq_some_iff.1 hfirst
        by_cases htype : e.type = param.type
        · exact ⟨_, _, _, .arraySize he htype fun h => hne (congrArg₂ _ htype h)⟩
        · exact ⟨_, _, _, .dataType he htype⟩
    obtain ⟨what, a, b, hclash⟩ := hclash
    exact ⟨_, ⟨hclash⟩⟩

/-! ## Entries come from declarations -/

theorem shape?_addAttributes (p : Params) (name : String) (attributes : List ParamAttribute) :
    (p.addAttributes name attributes).shape? = p.shape? := by
  obtain ⟨table, htable⟩ := exists_addAttributes p name attributes
  rw [htable]
  rfl

/-- An entry of a table with a new one. -/
theorem map_get?_insert {α : Type} {table : Table α} {value : α} {shape : α → ParamShape}
    (h : ((table.insert name value).get? other).map shape = some s) :
    (table.get? other).map shape = some s ∨ name = other ∧ shape value = s := by
  rw [Table.get?_insert] at h
  split at h
  · next heq => exact .inr ⟨heq, Option.some.inj h⟩
  · exact .inl h

theorem origin_addSampler {param : SamplerParam}
    (h : (p.addSampler name param).1.shape? other t = some s) :
    p.shape? other t = some s ∨ s = .sampler ∧ name = other := by
  unfold addSampler at h
  split at h
  · cases t with
    | samplers => exact (map_get?_insert h).imp_right fun ⟨hname, hs⟩ => ⟨hs.symm, hname⟩
    | data | textures | buffers | blocks => exact .inl h
  · exact .inl h

theorem origin_addSamplers {param : SamplerParam} {names : List String}
    (h : (p.addSamplers param names).shape? other t = some s) :
    p.shape? other t = some s ∨ s = .sampler ∧ other ∈ names := by
  induction names generalizing p with
  | nil => exact .inl h
  | cons name names ih =>
    rcases ih h with h | ⟨hs, hmem⟩
    · rcases origin_addSampler h with h | ⟨hs, rfl⟩
      · exact .inl h
      · exact .inr ⟨hs, List.mem_cons_self⟩
    · exact .inr ⟨hs, List.mem_cons_of_mem _ hmem⟩

/-- What is in the tables when a demand is met was there before or is what was asked for. -/
theorem Meets.origin (h : Meets p name d q) (hq : q.shape? other t = some s) :
    p.shape? other t = some s ∨ d.shape? = some s ∧ (name = other ∨ other ∈ d.otherNames) := by
  cases h with
  | stays => exact .inl hq
  | sampler =>
    rcases origin_addSamplers hq with hq | ⟨rfl, hmem⟩
    · exact .inl hq
    · rcases List.mem_append.1 hmem with hmem | hmem
      · exact .inr ⟨rfl, .inr hmem⟩
      · exact .inr ⟨rfl, .inl (List.mem_singleton.1 hmem).symm⟩
  -- Each of the other demands makes an entry in its own table and leaves all others.
  | block =>
    cases t with
    | blocks =>
      exact (map_get?_insert hq).imp_right fun ⟨hname, hs⟩ => ⟨congrArg some hs, .inl hname⟩
    | data | textures | samplers | buffers => exact .inl hq
  | texture =>
    rw [shape?_addAttributes] at hq
    cases t with
    | textures =>
      exact (map_get?_insert hq).imp_right fun ⟨hname, hs⟩ => ⟨congrArg some hs, .inl hname⟩
    | data | samplers | buffers | blocks => exact .inl hq
  | buffer =>
    rw [shape?_addAttributes] at hq
    cases t with
    | buffers =>
      exact (map_get?_insert hq).imp_right fun ⟨hname, hs⟩ => ⟨congrArg some hs, .inl hname⟩
    | data | textures | samplers | blocks => exact .inl hq
  | data =>
    rw [shape?_addAttributes] at hq
    cases t with
    | data =>
      exact (map_get?_insert hq).imp_right fun ⟨hname, hs⟩ => ⟨congrArg some hs, .inl hname⟩
    | textures | samplers | buffers | blocks => exact .inl hq

theorem origin_met (h : (p.met name d).shape? other t = some s) :
    p.shape? other t = some s ∨ d.shape? = some s ∧ (name = other ∨ other ∈ d.otherNames) :=
  (meets_met p name d).origin h

/-- What programs add to the tables they declare, under its name or as another name of a sampler. -/
theorem origin_metAll (h : (p.metAll row).shape? name t = some s) :
    p.shape? name t = some s ∨ Declares row name s ∨ s = .sampler ∧ DeclaresBeside row name := by
  induction row generalizing p with
  | nil => exact .inl h
  | cons x row ih =>
    rcases ih h with h | h | ⟨hs, h⟩
    · rcases origin_met h with h | ⟨hs, hname | hname⟩
      · exact .inl h
      · exact .inr (.inl ⟨x, List.mem_cons_self, hname, hs⟩)
      · refine .inr (.inr ⟨?_, x, List.mem_cons_self, hname⟩)
        -- Only a sampler has other names.
        generalize x.1.demand x.2 = d at hs hname
        cases d with
        | sampler => exact (Option.some.inj hs).symm
        | nothing | block | texture | buffer | data => cases hname
    · exact .inr (.inl h.cons)
    · exact .inr (.inr ⟨hs, h.cons⟩)

/-! ## Declarations have entries -/

theorem exists_shape?_met (h : d.shape? = some s) :
    ∃ first, (p.met name d).shape? name s.table = some first := by
  have hholds := holds_met p name d
  cases d with
  | nothing => cases h
  | block | sampler | texture | buffer | data =>
    cases h
    obtain ⟨e, he⟩ := hholds
    exact ⟨_, Option.map_eq_some_iff.2 ⟨e, he, rfl⟩⟩

/-- A demand that does not clash is met by an entry of its shape. -/
theorem shape?_met_of_not_rejects (h : ∀ e, ¬ Rejects p x e)
    (hs : (x.1.demand x.2).shape? = some s) :
    (p.met x.2.ident (x.1.demand x.2)).shape? x.2.ident s.table = some s := by
  have hmet : ∃ first, (p.met x.2.ident (x.1.demand x.2)).shape? x.2.ident s.table = some first :=
    exists_shape?_met hs
  obtain ⟨first, hfirst⟩ := hmet
  rcases origin_met hfirst with hbefore | ⟨hnew, -⟩
  · have hsame : first = s := by
      by_contra hne
      obtain ⟨e, he⟩ := exists_rejects_iff.2 ⟨s, first, hs, hbefore, hne⟩
      exact h e he
    rwa [hsame] at hfirst
  · rwa [← Option.some.inj (hs.symm.trans hnew)] at hfirst

theorem grows_metAll (p : Params) (row : List (Reflection × Uniform)) : p.Grows (p.metAll row) := by
  unfold metAll
  exact .foldl (fun p x => grows_met p _ _) p row

/-- Where no uniform clashes, every declaration has an entry of its shape. -/
theorem shape?_metAll_of_agrees (h : Agrees p row) (hs : Declares row name s) :
    (p.metAll row).shape? name s.table = some s := by
  induction row generalizing p with
  | nil =>
    obtain ⟨x, hx, -⟩ := hs
    cases hx
  | cons x row ih =>
    obtain ⟨hx, hrow⟩ := agrees_cons_iff.1 h
    obtain ⟨y, hy, rfl, hs⟩ := hs
    rcases List.mem_cons.1 hy with rfl | hy
    · exact (grows_metAll _ row).shape? (shape?_met_of_not_rejects hx hs)
    · exact ih hrow ⟨y, hy, rfl, hs⟩

/-! ## Strict registration -/

theorem registerReflections_strict_iff {rs : List Reflection} :
    registerReflections true p rs = .ok q ↔
      Agrees p (Reflection.declared rs) ∧ q = p.metAll (Reflection.declared rs) := by
  have hcases := registersAll_of_reflections true p rs
  generalize registerReflections true p rs = result at hcases
  cases hcases with
  | met h => simp [h rfl, eq_comm]
  | clash _ h =>
    simp only [reduceCtorEq, false_iff]
    exact fun ⟨hagrees, _⟩ => not_firstClash_of_agrees hagrees h

/-- From no tables at all, uniforms clash unless the declarations of a name for a table agree. -/
theorem agrees_empty_iff :
    Agrees empty row ↔ ∀ name s s', Declares row name s → Declares row name s' →
      s.table = s'.table → s = s' := by
  constructor
  · intro h name s s' hs hs' htable
    have hfound := shape?_metAll_of_agrees h hs
    rw [htable, shape?_metAll_of_agrees h hs'] at hfound
    exact (Option.some.inj hfound).symm
  · rintro h before x after rfl e hx
    obtain ⟨s, first, hs, hfirst, hne⟩ := exists_rejects_iff.1 ⟨e, hx⟩
    have htable := table_of_shape? hfirst
    rcases origin_metAll hfirst with hempty | ⟨y, hy, hname, hdeclared⟩ | ⟨rfl, -⟩
    · rw [shape?_empty] at hempty
      cases hempty
    · have hx : Declares (before ++ x :: after) x.2.ident s := ⟨x, by simp, rfl, hs⟩
      exact hne (h _ first s ⟨y, List.mem_append_left _ hy, hname, hdeclared⟩ hx htable)
    -- Entries under another name of a sampler differ from no sampler.
    · cases s with
      | sampler => exact hne rfl
      | data | texture | buffer | block => cases htable

/-- Programs are registered strictly from the beginning just if any two declarations of one name
that are for one table ask for entries of one shape, wherever they are. Then each declaration has
its entry; and there is no entry without a declaration of its name and shape, but for the other
names of samplers. Two of the uniforms of a name that ask for entries, as all do but those that are
internal or in an internal block, agree in kind, type and array size just if they are for one table
and do not differ in what is overlooked there. -/
theorem strict_accepts_agreeing (rs : List Reflection) :
    ((∃ q, registerReflections true empty rs = .ok q) ↔
      ∀ name s s', Declares (Reflection.declared rs) name s →
        Declares (Reflection.declared rs) name s' → s.table = s'.table → s = s') ∧
    ∀ q, registerReflections true empty rs = .ok q →
      (∀ name s, Declares (Reflection.declared rs) name s → q.shape? name s.table = some s) ∧
      (∀ name t s, q.shape? name t = some s → s.table = t ∧
        (Declares (Reflection.declared rs) name s ∨
          s = .sampler ∧ DeclaresBeside (Reflection.declared rs) name)) ∧
      ∀ x ∈ Reflection.declared rs, ∀ y ∈ Reflection.declared rs, x.2.ident = y.2.ident →
        ∀ s s', (x.1.demand x.2).shape? = some s → (y.1.demand y.2).shape? = some s' →
          (Reflection.SameUniform x y ↔ s.table = s'.table ∧ ¬ Reflection.Overlooked x y) := by
  have hiff : (∃ q, registerReflections true empty rs = .ok q) ↔
      Agrees empty (Reflection.declared rs) := by
    simp only [registerReflections_strict_iff, exists_and_left, exists_eq, and_true]
  refine ⟨hiff.trans agrees_empty_iff, fun q h => ?_⟩
  obtain ⟨hagrees, rfl⟩ := registerReflections_strict_iff.1 h
  refine ⟨fun name s => shape?_metAll_of_agrees hagrees, fun name t s hs => ?_,
    fun x hx y hy hname s s' hs hs' => Reflection.sameUniform_iff hs hs' ?_⟩
  · refine ⟨table_of_shape? hs, ?_⟩
    rcases origin_metAll hs with hempty | hdeclared
    · rw [shape?_empty] at hempty
      cases hempty
    · exact hdeclared
  -- Shapes for one table agree.
  · exact agrees_empty_iff.1 hagrees _ s s' ⟨x, hx, hname, hs⟩ ⟨y, hy, rfl, hs'⟩

/-- A program that declares an array of textures. -/
def declaringTextures (count : Nat) : Reflection :=
  { Reflection.empty with
    uniforms := [⟨"gMaps", .buffer .texture2D, .none, "", count, none, none, ""⟩] }

/-- Arrays of two textures and of four get one entry, though they do not agree. -/
theorem strict_accepts_agreeing_textures :
    ∃ q, registerReflections true empty [declaringTextures 2, declaringTextures 4] = .ok q ∧
      q.shape? "gMaps" .textures = some (.texture .texture2D) ∧
      ∃ x y, Reflection.declared [declaringTextures 2, declaringTextures 4] = [x, y] ∧
        x.2.ident = y.2.ident ∧ Reflection.Overlooked x y ∧ ¬ Reflection.SameUniform x y := by
  have hread : (registerReflections true empty
      [declaringTextures 2, declaringTextures 4]).toOption.map (·.shape? "gMaps" .textures) =
        some (some (.texture .texture2D)) := by decide +kernel
  obtain ⟨q, hq, hshape⟩ := Option.map_eq_some_iff.1 hread
  have hok := Outcome.toOption_eq_some_iff.1 hq
  obtain ⟨-, -, hagree⟩ := (strict_accepts_agreeing _).2 q hok
  have hoverlooked : Reflection.Overlooked
      (declaringTextures 2, (declaringTextures 2).uniforms[0])
      (declaringTextures 4, (declaringTextures 4).uniforms[0]) := .bufferSize rfl rfl (by decide)
  refine ⟨q, hok, hshape, _, _, rfl, rfl, hoverlooked, fun hsame => ?_⟩
  exact ((hagree _ (List.mem_cons_self ..) _ (List.mem_cons_of_mem _ List.mem_cons_self) rfl _ _ rfl
    rfl).1 hsame).2 hoverlooked

/-- A program that declares one uniform, of which nothing more is said. -/
def declaring (name : String) (kind : UniformKind) : Reflection :=
  { Reflection.empty with uniforms := [⟨name, kind, .none, "", 1, none, none, ""⟩] }

/-- One program declares a color, and another one a texture of the same name. Registered strictly,
both get an entry. -/
theorem strict_misses_other_table :
    (registerReflections true empty
      [declaring "gTint" (.variable .float4), declaring "gTint" (.buffer .texture2D)]).toOption.map
        (fun q => (q.shape? "gTint" .data, q.shape? "gTint" .textures)) =
      some (some (.data .float4 1), some (.texture .texture2D)) := by
  decide +kernel

end Params
end ShaderLang
