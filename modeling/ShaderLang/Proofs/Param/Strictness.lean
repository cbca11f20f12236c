import ShaderLang.Compile.Compiler
import ShaderLang.Proofs.Param.Demand
/-!
# Strict registration only rejects

Registering programs meets what their uniforms ask for, one uniform behind the other. When it is not
strict, nothing can go wrong. When it is, it goes through the same tables up to the first uniform
that clashes with an entry of its own kind, and reports this one; without such a uniform it comes to
the same tables.

## Main definitions

* `Reflection.declared` — all uniforms that programs declare, in order
* `Params.metAll` — the tables with the demands of uniforms met
* `Params.Agrees`, `Params.FirstClash` — no uniform clashes, or one is the first to do so

## Main results

* `Params.registersAll_of_reflections` — what registering programs comes to, strict or not
* `Params.strict_only_rejects` — registering programs, strict and not
-/

namespace ShaderLang

/-- All uniforms that programs declare, each with its program, in order. -/
def Reflection.declared (rs : List Reflection) : List (Reflection × Uniform) :=
  rs.flatMap fun r => r.uniforms.map (r, ·)

namespace Params

/-- The tables with the demands of uniforms met, one behind the other. -/
def metAll (p : Params) (row : List (Reflection × Uniform)) : Params :=
  row.foldl (fun p x => p.met x.2.ident (x.1.demand x.2)) p

/-- A uniform clashes with the tables, which is an error. -/
inductive Rejects (p : Params) (x : Reflection × Uniform) : CompileError → Prop
  | intro {what first second : String}
      (h : Clashes p x.2.ident (x.1.demand x.2) what first second) :
      Rejects p x (.parameterMismatch x.2.ident what first second)

/-- No uniform of a row clashes with the tables that it comes to. -/
def Agrees (p : Params) (row : List (Reflection × Uniform)) : Prop :=
  ∀ before x after, row = before ++ x :: after → ∀ e, ¬ Rejects (p.metAll before) x e

/-- Some uniform of a row clashes with the tables that it comes to, and it is the first one. -/
def FirstClash (p : Params) (row : List (Reflection × Uniform)) (e : CompileError) : Prop :=
  ∃ before x after, row = before ++ x :: after ∧ Agrees p before ∧ Rejects (p.metAll before) x e

variable {p q : Params} {r : Reflection} {x : Reflection × Uniform} {e : CompileError}
  {row others : List (Reflection × Uniform)} {strict : Bool}

/-! ## Rows of uniforms -/

theorem metAll_append (p : Params) (row others : List (Reflection × Uniform)) :
    p.metAll (row ++ others) = (p.metAll row).metAll others := List.foldl_append

theorem agrees_nil (p : Params) : Agrees p [] := by
  intro before x after h
  cases before <;> cases h

theorem agrees_cons_iff :
    Agrees p (x :: row) ↔
      (∀ e, ¬ Rejects p x e) ∧ Agrees (p.met x.2.ident (x.1.demand x.2)) row := by
  constructor
  · intro h
    exact ⟨h [] x row rfl, fun before y after hrow => h (x :: before) y after (congrArg _ hrow)⟩
  · rintro ⟨hx, hrow⟩ before y after h
    cases before with
    | nil =>
      cases h
      exact hx
    | cons z before =>
      cases h
      exact hrow before y after rfl

theorem firstClash_cons_iff :
    FirstClash p (x :: row) e ↔
      Rejects p x e ∨
        (∀ e, ¬ Rejects p x e) ∧ FirstClash (p.met x.2.ident (x.1.demand x.2)) row e := by
  constructor
  · rintro ⟨before, y, after, h, hbefore, hy⟩
    cases before with
    | nil =>
      cases h
      exact .inl hy
    | cons z before =>
      cases h
      obtain ⟨hz, hbefore⟩ := agrees_cons_iff.1 hbefore
      exact .inr ⟨hz, before, y, after, rfl, hbefore, hy⟩
  · rintro (hx | ⟨hx, before, y, after, rfl, hbefore, hy⟩)
    · exact ⟨[], x, row, rfl, agrees_nil p, hx⟩
    · exact ⟨x :: before, y, after, rfl, agrees_cons_iff.2 ⟨hx, hbefore⟩, hy⟩

theorem not_firstClash_nil : ¬ FirstClash p [] e := by
  rintro ⟨before, x, after, h, -⟩
  cases before <;> cases h

/-- A row clashes in its first part, or else in the rest. -/
theorem firstClash_append_iff :
    FirstClash p (row ++ others) e ↔
      FirstClash p row e ∨ Agrees p row ∧ FirstClash (p.metAll row) others e := by
  induction row generalizing p with
  | nil => simp [not_firstClash_nil, agrees_nil, metAll]
  | cons x row ih =>
    rw [List.cons_append, firstClash_cons_iff, firstClash_cons_iff, agrees_cons_iff, ih]
    simp only [metAll, List.foldl_cons]
    tauto

theorem agrees_append_iff :
    Agrees p (row ++ others) ↔ Agrees p row ∧ Agrees (p.metAll row) others := by
  induction row generalizing p with
  | nil => simp [agrees_nil, metAll]
  | cons x row ih =>
    rw [List.cons_append, agrees_cons_iff, agrees_cons_iff, ih, and_assoc]
    rfl

theorem not_firstClash_of_agrees (h : Agrees p row) : ¬ FirstClash p row e := by
  rintro ⟨before, x, after, hrow, -, hx⟩
  exact h before x after hrow e hx

/-- A uniform clashes in one way: a difference in array size counts only without one in type. -/
theorem Rejects.unique {e' : CompileError} (h : Rejects p x e) (h' : Rejects p x e') : e = e' := by
  obtain ⟨h⟩ := h
  obtain ⟨h'⟩ := h'
  generalize x.1.demand x.2 = d at h h'
  cases h <;> cases h' <;> simp_all

theorem FirstClash.unique {e' : CompileError} (h : FirstClash p row e)
    (h' : FirstClash p row e') : e = e' := by
  induction row generalizing p with
  | nil => exact absurd h not_firstClash_nil
  | cons x row ih =>
    rcases firstClash_cons_iff.1 h with hx | ⟨hx, h⟩
    · rcases firstClash_cons_iff.1 h' with hx' | ⟨hx', -⟩
      · exact hx.unique hx'
      · exact absurd hx (hx' e)
    · rcases firstClash_cons_iff.1 h' with hx' | ⟨-, h'⟩
      · exact absurd hx' (hx e')
      · exact ih h h'

/-! ## Registering rows of uniforms -/

/-- The demands of a row are met, or the registration is strict and one of them clashes first. -/
inductive RegistersAll (strict : Bool) (p : Params) (row : List (Reflection × Uniform)) :
    Except CompileError Params → Prop
  | met (h : strict = true → Agrees p row) : RegistersAll strict p row (.ok (p.metAll row))
  | clash {e : CompileError} (hstrict : strict = true) (h : FirstClash p row e) :
      RegistersAll strict p row (.error e)

theorem registersAll_nil (strict : Bool) (p : Params) : RegistersAll strict p [] (.ok p) :=
  .met fun _ => agrees_nil p

/-- A row behind another one. -/
theorem RegistersAll.append {result : Except CompileError Params}
    (h : RegistersAll strict p row (.ok q)) (h' : RegistersAll strict q others result) :
    RegistersAll strict p (row ++ others) result := by
  cases h with
  | met hrow =>
    cases h' with
    | met hothers =>
      rw [← metAll_append]
      exact .met fun hstrict => agrees_append_iff.2 ⟨hrow hstrict, hothers hstrict⟩
    | clash hstrict hothers =>
      exact .clash hstrict (firstClash_append_iff.2 (.inr ⟨hrow hstrict, hothers⟩))

theorem RegistersAll.append_of_error (h : RegistersAll strict p row (.error e))
    (others : List (Reflection × Uniform)) : RegistersAll strict p (row ++ others) (.error e) := by
  cases h with
  | clash hstrict hrow => exact .clash hstrict (firstClash_append_iff.2 (.inl hrow))

/-- One uniform. -/
theorem registersAll_singleton (r : Reflection) (strict : Bool) (p : Params) (u : Uniform) :
    RegistersAll strict p [(r, u)] (registerUniform r strict p u) := by
  have hcases := registers_uniform r strict p u
  generalize registerUniform r strict p u = result at hcases
  cases hcases with
  | met h =>
    have hagrees (hstrict : strict = true) : Agrees p [(r, u)] := by
      refine agrees_cons_iff.2 ⟨?_, agrees_nil _⟩
      rintro e ⟨hclash⟩
      exact h hstrict _ _ _ hclash
    exact .met hagrees
  | clash hstrict h => exact .clash hstrict (firstClash_cons_iff.2 (.inl ⟨h⟩))

/-- The tables, or the error of the uniform that could not be registered. -/
def outcome : Params × Option CompileError → Except CompileError Params
  | (p, none) => .ok p
  | (_, some e) => .error e

theorem registersAll_uniforms (r : Reflection) (strict : Bool) (p : Params) (us : List Uniform) :
    RegistersAll strict p (us.map (r, ·)) (outcome (registerAll r strict p us)) := by
  induction us generalizing p with
  | nil => exact registersAll_nil strict p
  | cons u us ih =>
    have hfirst := registersAll_singleton r strict p u
    rw [registerAll, List.map_cons, ← List.singleton_append]
    split
    · next q hq =>
      rw [hq] at hfirst
      exact hfirst.append (ih q)
    · next e he =>
      rw [he] at hfirst
      exact hfirst.append_of_error _

/-- What registering programs comes to. -/
theorem registersAll_of_reflections (strict : Bool) (p : Params) (rs : List Reflection) :
    RegistersAll strict p (Reflection.declared rs) (registerReflections strict p rs) := by
  induction rs generalizing p with
  | nil => exact registersAll_nil strict p
  | cons r rs ih =>
    have hfirst : RegistersAll strict p _ (outcome (p.register strict r)) :=
      registersAll_uniforms r strict p r.uniforms
    rw [registerReflections, Reflection.declared, List.flatMap_cons]
    split
    · next q hq =>
      rw [hq] at hfirst
      exact hfirst.append (ih q)
    · next e he =>
      rw [he] at hfirst
      exact hfirst.append_of_error _

/-- A uniform that is not registered strictly is registered by meeting what it asks for. -/
theorem registerUniform_lenient (r : Reflection) (p : Params) (u : Uniform) :
    registerUniform r false p u = .ok (p.met u.ident (r.demand u)) := by
  have hcases := registers_uniform r false p u
  generalize registerUniform r false p u = result at hcases
  cases hcases with
  | met => rfl
  | clash hstrict => cases hstrict

/-- Strict registration only rejects. Without it programs can always be registered, which meets what
their uniforms ask for, one behind the other. If they can be registered with it, this comes to the
same tables; and it fails just if some uniform clashes with the tables that it comes to, with the
mismatch of the first uniform that does. -/
theorem strict_only_rejects (p : Params) (rs : List Reflection) :
    registerReflections false p rs = .ok (p.metAll (Reflection.declared rs)) ∧
      (∀ q r u, registerUniform r false q u = .ok (q.met u.ident (r.demand u))) ∧
      (∀ q, registerReflections true p rs = .ok q → registerReflections false p rs = .ok q) ∧
      ∀ e, registerReflections true p rs = .error e ↔
        FirstClash p (Reflection.declared rs) e := by
  have hlenient : registerReflections false p rs = .ok (p.metAll (Reflection.declared rs)) := by
    have hcases := registersAll_of_reflections false p rs
    generalize registerReflections false p rs = result at hcases
    cases hcases with
    | met => rfl
    | clash hstrict => cases hstrict
  have hstrict := registersAll_of_reflections true p rs
  refine ⟨hlenient, fun q r u => registerUniform_lenient r q u, fun q h => ?_,
    fun e => ⟨fun h => ?_, fun h => ?_⟩⟩
  · rw [h] at hstrict
    cases hstrict with
    | met => exact hlenient
  · rw [h] at hstrict
    cases hstrict with
    | clash _ hfirst => exact hfirst
  -- A first clash rules out that all demands are met, and there is only one first clash.
  · generalize registerReflections true p rs = result at hstrict
    cases hstrict with
    | met hagrees => exact absurd h (not_firstClash_of_agrees (hagrees rfl))
    | clash _ hfirst => rw [hfirst.unique h]

end Params
end ShaderLang
