import ShaderLang.Hlsl.Reflect
import ShaderLang.Proofs.Param.Growth
/-!
# What is internal

A uniform that is marked internal is no parameter, and neither is a variable in a constant buffer
whose uniform is marked so. All others ask for an entry. The uniform of a constant buffer is told by
the name of the buffer, so that the first of two buffers of one name speaks for both. A struct is
asked for its own marks only, and becomes a parameter wherever it lies.

## Main definitions

* `Reflection.StandsFor` — the uniform of a constant buffer
* `Reflection.Hides` — a uniform is no parameter

## Main results

* `Reflection.demand_eq_nothing_iff` — just the hidden uniforms ask for nothing
* `Params.register_skips_hidden` — registering a program is registering what it does not hide
* `Params.struct_of_internal_block` — a struct in an internal buffer is registered
-/

namespace ShaderLang

namespace Reflection

/-- A uniform stands for a constant buffer: it is the first uniform of a buffer with its name. -/
def StandsFor (r : Reflection) (v : Uniform) (b : Binding) : Prop :=
  ∃ before after, r.uniforms = before ++ v :: after ∧ v.kind = .uniformBuffer ∧
    v.ident = b.ident ∧ ∀ w ∈ before, w.kind = .uniformBuffer → w.ident ≠ b.ident

/-- A uniform lies in a constant buffer that is marked internal. -/
def InInternalBlock (r : Reflection) (u : Uniform) : Prop :=
  ∃ i b v, u.block? = some i ∧ r.constantBuffers[i]? = some b ∧ r.StandsFor v b ∧
    v.marks.internal = true

/-- A uniform is no parameter: it is marked internal, or is a variable in a constant buffer that
is. -/
def Hides (r : Reflection) (u : Uniform) : Prop :=
  u.marks.internal = true ∨ (∃ type, u.kind = .variable type) ∧ r.InInternalBlock u

variable {r : Reflection} {u v : Uniform} {b : Binding}

theorem find?_eq_some_iff_standsFor :
    r.uniforms.find? (fun v => v.kind = .uniformBuffer && v.ident == b.ident) = some v ↔
      r.StandsFor v b := by
  simp only [List.find?_eq_some_iff_append, StandsFor, Bool.and_eq_true, decide_eq_true_eq,
    beq_iff_eq, Bool.not_eq_true', Bool.and_eq_false_iff, decide_eq_false_iff_not,
    beq_eq_false_iff_ne]
  grind

theorem isBlockInternal_iff : r.isBlockInternal u = true ↔ r.InInternalBlock u := by
  simp only [isBlockInternal, InInternalBlock, ← find?_eq_some_iff_standsFor]
  cases u.block? with
  | none => simp
  | some i =>
    cases hb : r.constantBuffers[i]? with
    | none => simp [hb]
    | some b =>
      simp only [Option.bind_some, hb, Option.some.injEq, exists_and_left, exists_eq_left']
      cases List.find? _ r.uniforms with
      | none => simp
      | some v => simp

instance : DecidablePred r.InInternalBlock := fun _ => decidable_of_iff _ isBlockInternal_iff

instance : DecidablePred r.Hides := fun u =>
  match h : u.kind with
  | .variable type =>
    decidable_of_iff (u.marks.internal = true ∨ r.InInternalBlock u) (by simp [Hides, h])
  | .uniformBuffer | .buffer _ | .sampler | .struct _ =>
    decidable_of_iff (u.marks.internal = true) (by simp [Hides, h])

/-- Just the hidden uniforms ask for nothing. -/
theorem demand_eq_nothing_iff : r.demand u = .nothing ↔ r.Hides u := by
  unfold demand Hides
  cases u.marks.internal with
  | true => simp
  | false =>
    cases u.kind with
    | uniformBuffer | struct index => simp
    | buffer type =>
      simp only [Bool.false_eq_true, if_false, bufferDemand]
      cases type.textureType? <;> simp
    | sampler =>
      unfold samplerDemand
      cases r.samplers.get? u.ident <;> simp
    | «variable» type => simp [variableDemand, ← isBlockInternal_iff]

end Reflection

namespace Params

variable {r : Reflection} {p q : Params} {u : Uniform} {strict : Bool} {name : String} {d : Demand}

theorem holds_registerUniform (h : registerUniform r strict p u = .ok q) :
    q.Holds u.ident (r.demand u) := by
  have hcases := registers_uniform r strict p u
  rw [h] at hcases
  cases hcases with
  | met => exact holds_met p _ _

theorem eq_nothing_of_holds_empty (h : empty.Holds name d) : d = .nothing := by
  cases d with
  | nothing => rfl
  | block | sampler | texture | buffer | data =>
    obtain ⟨first, hfirst⟩ := h
    cases hfirst

/-- Just the hidden uniforms leave all tables as they are. -/
theorem registerUniform_eq_self_iff :
    (∀ strict p, registerUniform r strict p u = .ok p) ↔ r.Hides u := by
  rw [← Reflection.demand_eq_nothing_iff]
  constructor
  · exact fun h => eq_nothing_of_holds_empty (holds_registerUniform (h false empty))
  · intro h strict p
    have hcases := registers_uniform r strict p u
    rw [h] at hcases
    generalize registerUniform r strict p u = result at hcases
    cases hcases with
    | met => rfl
    | clash _ hclash => cases hclash

theorem registerAll_skips_hidden (r : Reflection) (strict : Bool) (p : Params) (us : List Uniform) :
    registerAll r strict p us = registerAll r strict p (us.filter fun u => ¬ r.Hides u) := by
  induction us generalizing p with
  | nil => rfl
  | cons u us ih =>
    by_cases hu : r.Hides u
    · rw [List.filter_cons_of_neg (by simpa using hu), registerAll,
        registerUniform_eq_self_iff.2 hu strict p]
      exact ih p
    · rw [List.filter_cons_of_pos (by simpa using hu), registerAll, registerAll]
      cases registerUniform r strict p u with
      | ok q => exact ih q
      | error e => rfl

/-- Registering a program, into whatever tables, is registering what it does not hide: what is
marked internal, and the variables in constant buffers whose uniform is, take no part in it. No
other uniform is passed over. -/
theorem register_skips_hidden (r : Reflection) :
    (∀ strict p, p.register strict r =
      registerAll r strict p (r.uniforms.filter fun u => ¬ r.Hides u)) ∧
    ∀ u, (∀ strict p, registerUniform r strict p u = .ok p) ↔ r.Hides u :=
  ⟨fun strict p => registerAll_skips_hidden r strict p r.uniforms,
    fun _ => registerUniform_eq_self_iff⟩

/-- A struct in a constant buffer that is marked internal. -/
def internalLight : String :=
  "struct L \x7b int a; \x7d;\n[internal] cbuffer C \x7b L gLight; \x7d;\n"

/-- The struct is a member of a buffer that is marked internal, and gets an entry. -/
theorem struct_of_internal_block :
    ∃ r u, Hlsl.reflect? internalLight 0 = some r ∧ u ∈ r.uniforms ∧ u.ident = "gLight" ∧
      u.kind = .struct 0 ∧ r.InInternalBlock u ∧
      ((empty.register true r).1.data.get? "gLight").isSome := by
  have hread : (Hlsl.reflect? internalLight 0).any (fun r =>
      r.uniforms.any (fun u => u.ident = "gLight" && u.kind = .struct 0 && r.InInternalBlock u) &&
        ((empty.register true r).1.data.get? "gLight").isSome) = true := by decide +kernel
  obtain ⟨r, hr, hread⟩ := (Option.any_eq_true ..).1 hread
  simp only [Bool.and_eq_true, List.any_eq_true, decide_eq_true_eq] at hread
  obtain ⟨⟨u, hu, ⟨hident, hkind⟩, hblock⟩, hentry⟩ := hread
  exact ⟨r, u, hr, hu, hident, hkind, hblock, hentry⟩

end Params
end ShaderLang
