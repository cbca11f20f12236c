import Mathlib.Data.List.Forall2
import ShaderLang.Proofs.Hlsl.WellFormed
/-!
# Variables of a program

The variables that a program declares, at the top level and in constant buffers, in the order of
their text, and the uniforms that stand for them in its reflection. A uniform has the name, the
marks and the array size of its declaration, and the default that its initializer gives. Uniforms
and defaults are only ever added, so that a uniform keeps its default.

## Main definitions

* `Hlsl.variablesIn` — the variables of a program, each with its type
* `Hlsl.Describes` — a uniform that stands for a variable

## Main results

* `Hlsl.Reader.describes_declare` — the variables of one more declaration
* `Hlsl.describes_of_reflect?` — the variables of a program, one by one
* `Hlsl.Describes.defaultOf?_eq` — the default of a variable is the one of its initializer
-/

namespace ShaderLang

/-- The uniform is a variable of a type that is no struct. -/
def Uniform.isVariable (u : Uniform) : Bool :=
  match u.kind with
  | .variable _ => true
  | _ => false

namespace Hlsl

/-! ## Declared variables -/

/-- The declarations of known types. -/
def variablesOf (ds : List Declared) : List (Declared × DataType) :=
  ds.filterMap fun d => (dataType? d.type).map (d, ·)

/-- The variables of a declaration at the top level: those in a constant buffer, or itself. -/
def Declared.variablesIn (text : List Char) (d : Declared) : List (Declared × DataType) :=
  if d.isLocal then []
  else if d.type = "cbuffer" ∨ d.type = "tbuffer" then
    variablesOf (declarations ((d.block?.map fun b => slice text b.1 b.2).getD []))
  else variablesOf [d]

/-- The variables that a program declares, with their types. -/
def variablesIn (code : String) : List (Declared × DataType) :=
  let text := uncommented code.toList
  (declarations ((blankScopes? text).getD [])).flatMap (Declared.variablesIn text)

/-- A uniform that stands for a variable, where the defaults are the given ones. -/
structure Describes (defaults : List DefaultValue) (u : Uniform) (x : Declared × DataType) :
    Prop where
  declared : { u with default? := none, block? := none } = x.1.uniform (.variable x.2)
  default : u.default?.map (defaults[·]?) = (x.1.initializer?.bind (defaultOf? x.2)).map some

variable {d : Declared} {t : DataType} {x : Declared × DataType} {u : Uniform}
  {defaults : List DefaultValue} {code : String}

theorem dataType?_of_mem_variablesOf {ds : List Declared} (h : x ∈ variablesOf ds) :
    dataType? x.1.type = some x.2 := by
  obtain ⟨d, -, hd⟩ := List.mem_filterMap.1 h
  obtain ⟨t, ht, rfl⟩ := Option.map_eq_some_iff.1 hd
  exact ht

/-- Variables have the types that their declarations name. -/
theorem dataType?_of_mem_variablesIn (h : x ∈ variablesIn code) :
    dataType? x.1.type = some x.2 := by
  obtain ⟨d, -, hd⟩ := List.mem_flatMap.1 h
  unfold Declared.variablesIn at hd
  split at hd
  · cases hd
  · split at hd <;> exact dataType?_of_mem_variablesOf hd

/-- The types of textures and storage buffers are none of variables. -/
theorem dataType?_of_bufferType? {name : String} {type : BufferType}
    (h : bufferType? name = some type) : dataType? name = none := by
  unfold bufferType? at h
  split at h <;> first | rfl | cases h

namespace Describes

theorem ident (h : Describes defaults u x) : u.ident = x.1.name :=
  congrArg Uniform.ident h.declared

theorem kind (h : Describes defaults u x) : u.kind = .variable x.2 :=
  congrArg Uniform.kind h.declared

theorem arraySize (h : Describes defaults u x) : u.arraySize = x.1.arraySize :=
  congrArg Uniform.arraySize h.declared

/-- The default of a variable is the one of its initializer. -/
theorem defaultOf?_eq {r : Reflection} (h : Describes r.defaults u x) :
    r.defaultOf? u = x.1.initializer?.bind (defaultOf? x.2) := by
  have hdefault := h.default
  unfold Reflection.defaultOf?
  cases hu : u.default? with
  | none =>
    rw [hu] at hdefault
    exact (Option.map_eq_none_iff.1 hdefault.symm).symm
  | some i =>
    rw [hu] at hdefault
    obtain ⟨v, hv, hi⟩ := Option.map_eq_some_iff.1 hdefault.symm
    rw [hv]
    exact hi.symm

/-- More defaults change nothing for a uniform that has its own. -/
theorem append (h : Describes defaults u x) (more : List DefaultValue) :
    Describes (defaults ++ more) u x := by
  refine ⟨h.declared, ?_⟩
  rw [← h.default]
  cases hu : u.default? with
  | none => rfl
  | some i =>
    have hdefault := h.default
    rw [hu] at hdefault
    obtain ⟨v, -, hi⟩ := Option.map_eq_some_iff.1 hdefault.symm
    have hlt : i < defaults.length := (List.getElem?_eq_some_iff.1 hi.symm).1
    rw [Option.map_some, Option.map_some, List.getElem?_append_left hlt]

end Describes

/-! ## The reader -/

namespace Reader

variable {r : Reader} {vs : List (Declared × DataType)}

/-- The uniforms of variables stand for the given variables, one by one. -/
def Lists (r : Reader) (vs : List (Declared × DataType)) : Prop :=
  List.Forall₂ (Describes r.reflection.defaults) (r.reflection.uniforms.filter Uniform.isVariable)
    vs

/-- A reader with the same uniforms and defaults lists the same variables. -/
theorem Lists.of_eq {s : Reader} (h : r.Lists vs)
    (huniforms : s.reflection.uniforms = r.reflection.uniforms)
    (hdefaults : s.reflection.defaults = r.reflection.defaults) : s.Lists vs := by
  unfold Lists
  rwa [huniforms, hdefaults]

/-- One more uniform, with its default, which stands for one more variable. -/
theorem Lists.addUniform (h : r.Lists vs) (t : DataType) (block? : Option Nat) :
    (r.addUniform { d.uniform (.variable t) with block? }
      (d.initializer?.bind (defaultOf? t))).Lists (vs ++ [(d, t)]) := by
  unfold Lists
  rw [reflection_addUniform r rfl, List.filter_append]
  refine List.rel_append (h.imp fun _ _ hux => hux.append _) (.cons ⟨rfl, ?_⟩ .nil)
  cases d.initializer?.bind (defaultOf? t) <;> simp

/-- One more uniform that is no variable. -/
theorem Lists.addOther (h : r.Lists vs) (hu : u.isVariable = false) (hdefault : u.default? = none)
    (default? : Option DefaultValue) : (r.addUniform u default?).Lists vs := by
  unfold Lists
  rw [reflection_addUniform r hdefault, List.filter_append, List.filter_singleton]
  have hother : ({ u with default? := default?.map fun _ => r.reflection.defaults.length } :
      Uniform).isVariable = false := hu
  rw [hother, cond_false, List.append_nil]
  exact h.imp fun _ _ hux => hux.append _

theorem variablesOf_singleton (hd : dataType? d.type = some t) : variablesOf [d] = [(d, t)] := by
  simp [variablesOf, hd]

theorem variablesOf_singleton_of_none (hd : dataType? d.type = none) : variablesOf [d] = [] := by
  simp [variablesOf, hd]

/-- A variable in a constant buffer. -/
theorem Lists.member (h : r.Lists vs) (block : Nat) (d : Declared) :
    (member block r d).Lists (vs ++ variablesOf [d]) := by
  unfold Reader.member
  cases hd : dataType? d.type with
  | some t =>
    rw [variablesOf_singleton hd]
    exact h.addUniform t (some block)
  | none =>
    rw [variablesOf_singleton_of_none hd, List.append_nil]
    dsimp only
    split
    · exact h.addOther rfl rfl none
    · exact h

theorem Lists.members (h : r.Lists vs) (block : Nat) (ds : List Declared) :
    (ds.foldl (Reader.member block) r).Lists (vs ++ variablesOf ds) := by
  induction ds generalizing r vs with
  | nil => simpa [variablesOf] using h
  | cons d ds ih =>
    have hcons : variablesOf (d :: ds) = variablesOf [d] ++ variablesOf ds :=
      List.filterMap_append (l := [d])
    rw [hcons, ← List.append_assoc]
    exact ih (h.member block d)

/-- A variable at the top level. -/
theorem Lists.addVariable (h : r.Lists vs) (d : Declared) :
    (r.addVariable d).Lists (vs ++ variablesOf [d]) := by
  unfold Reader.addVariable
  cases hd : dataType? d.type with
  | some t =>
    rw [variablesOf_singleton hd]
    exact h.addUniform t none
  | none =>
    rw [variablesOf_singleton_of_none hd, List.append_nil]
    dsimp only
    split
    · exact h.addOther rfl rfl none
    · exact h

theorem Lists.addConstantBuffer (h : r.Lists vs) (d : Declared) (block : List Char) :
    (r.addConstantBuffer d block).Lists (vs ++ variablesOf (declarations block)) := by
  unfold Reader.addConstantBuffer
  refine Lists.members (.addOther ?_ rfl rfl none) _ _
  exact h.of_eq rfl rfl

theorem Lists.addSampler (h : r.Lists vs) (d : Declared) (block? : Option (List Char)) :
    (r.addSampler d block?).Lists vs := by
  unfold Reader.addSampler
  refine Lists.addOther ?_ rfl rfl none
  exact h.of_eq rfl rfl

theorem Lists.addBuffer (h : r.Lists vs) (d : Declared) (type : BufferType) :
    (r.addBuffer d type).Lists vs := by
  unfold Reader.addBuffer
  dsimp only
  split
  · refine Lists.addOther ?_ rfl rfl _
    exact h.of_eq rfl rfl
  · refine Lists.addOther ?_ rfl rfl _
    exact h.of_eq rfl rfl

/-- One more declaration lists its variables behind all others. -/
theorem describes_declare (h : r.Lists vs) (text : List Char) (d : Declared) :
    (declare text r d).Lists (vs ++ d.variablesIn text) := by
  unfold declare Declared.variablesIn
  dsimp only
  cases d.isLocal with
  | true => simpa using h
  | false =>
    simp only [Bool.false_eq_true, if_false]
    -- The words that open a resource are no types of variables.
    have hother (s : Reader) (hs : s.Lists vs) (hd : dataType? d.type = none)
        (hblock : ¬ (d.type = "cbuffer" ∨ d.type = "tbuffer")) :
        s.Lists (vs ++ if d.type = "cbuffer" ∨ d.type = "tbuffer" then
          variablesOf (declarations ((d.block?.map fun b => slice text b.1 b.2).getD []))
          else variablesOf [d]) := by
      rwa [if_neg hblock, variablesOf_singleton_of_none hd, List.append_nil]
    split
    · next htype => exact hother _ (h.of_eq rfl rfl) (by rw [htype]; rfl) (by rw [htype]; decide)
    · next htype =>
      rw [if_pos (.inl htype)]
      exact h.addConstantBuffer d _
    · next htype =>
      rw [if_pos (.inr htype)]
      exact h.addConstantBuffer d _
    · next htype => exact hother _ (h.addSampler d _) (by rw [htype]; rfl) (by rw [htype]; decide)
    · next htype => exact hother _ (h.addSampler d _) (by rw [htype]; rfl) (by rw [htype]; decide)
    · next htype => exact hother _ (h.addSampler d _) (by rw [htype]; rfl) (by rw [htype]; decide)
    · next hcbuffer htbuffer _ _ _ =>
      have hblock : ¬ (d.type = "cbuffer" ∨ d.type = "tbuffer") := by
        rintro (htype | htype)
        · exact hcbuffer htype
        · exact htbuffer htype
      split
      · next type htype =>
        exact hother _ (h.addBuffer d type) (dataType?_of_bufferType? htype) hblock
      · rw [if_neg hblock]
        exact h.addVariable d

theorem describes_foldl (h : r.Lists vs) (text : List Char) (ds : List Declared) :
    (ds.foldl (declare text) r).Lists (vs ++ ds.flatMap (Declared.variablesIn text)) := by
  induction ds generalizing r vs with
  | nil => simpa using h
  | cons d ds ih =>
    rw [List.flatMap_cons, ← List.append_assoc]
    exact ih (describes_declare h text d)

end Reader

/-- The uniforms of variables in the reflection of a program stand for the variables that the
program declares, one by one. -/
theorem describes_of_reflect? {start : Nat} {r : Reflection} (h : reflect? code start = some r) :
    List.Forall₂ (Describes r.defaults) (r.uniforms.filter Uniform.isVariable)
      (variablesIn code) := by
  unfold reflect? at h
  obtain ⟨top, htop, rfl⟩ := Option.map_eq_some_iff.1 h
  have hread := @Reader.describes_foldl (.fresh start) [] .nil (uncommented code.toList)
    (declarations top)
  have hvariables : variablesIn code =
      (declarations top).flatMap (Declared.variablesIn (uncommented code.toList)) := by
    simp only [variablesIn, htop, Option.getD_some]
  rw [hvariables]
  exact hread

/-- A member of a list has a partner in a list that is related to it entry by entry. -/
theorem exists_related {α β : Type} {R : α → β → Prop} {l : List α} {l' : List β} {a : α}
    (h : List.Forall₂ R l l') (ha : a ∈ l) : ∃ b ∈ l', R a b := by
  induction h with
  | nil => cases ha
  | cons hfirst _ ih =>
    rcases List.mem_cons.1 ha with rfl | ha
    · exact ⟨_, List.mem_cons_self, hfirst⟩
    · obtain ⟨b, hb, hrelated⟩ := ih ha
      exact ⟨b, List.mem_cons_of_mem _ hb, hrelated⟩

/-- The uniform of a variable stands for a variable that the program declares. -/
theorem exists_variable_of_uniform {start : Nat} {r : Reflection}
    (h : reflect? code start = some r) (hu : u ∈ r.uniforms) (hkind : u.isVariable = true) :
    ∃ x ∈ variablesIn code, Describes r.defaults u x :=
  exists_related (describes_of_reflect? h) (List.mem_filter.2 ⟨hu, hkind⟩)

/-- A variable that the program declares has a uniform. -/
theorem exists_uniform_of_variable {start : Nat} {r : Reflection}
    (h : reflect? code start = some r) (hx : x ∈ variablesIn code) :
    ∃ u ∈ r.uniforms, Describes r.defaults u x := by
  obtain ⟨u, hu, hux⟩ := exists_related (describes_of_reflect? h).flip hx
  exact ⟨u, (List.mem_filter.1 hu).1, hux⟩

end Hlsl
end ShaderLang
