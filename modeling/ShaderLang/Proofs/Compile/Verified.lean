import ShaderLang.Proofs.Compile.Lineup
/-!
# Shipped programs are verified

A compilation with a backend shows it the programs of a shader before the sub-shaders are compiled.
Each of these is compiled in the same way and so has been shown its own programs by the time it
completes an extension point; it keeps nothing but its techniques, so that no program comes in
behind. Whatever is shipped was accepted.

The programs of all techniques are shown, also when one has been rejected, and all rejections are
reported in the order of the programs.

## Main definitions

* `Verifier.Rejects`, `Verifier.lines` — some program is rejected, and the lines of the report
* `Shader.Accepted` — the programs of a shader and of its sub-shaders are accepted

## Main results

* `verify_eq_error_iff` — when verification fails, and the report
* `Compiler.accepted_of_compileTo` — compiled shaders are accepted
* `Compiler.shipped_programs_accepted` — both, of a compilation with a backend
-/

namespace ShaderLang

variable {σ : Type} {v : Verifier}

/-! ## Reports of verification -/

/-- The lines of a report: one for each rejected program, in order of techniques, passes and
programs. -/
def Verifier.lines (v : Verifier) (techniques : List Technique) : List String :=
  techniques.flatMap fun t => t.passes.flatMap fun pass => pass.programs.filterMap fun p =>
    (v p).map fun reason => p.stage.name ++ " program: " ++ reason ++ "\n"

theorem map_rejectionLine_rejections (v : Verifier) (techniques : List Technique) :
    (rejections v techniques).map rejectionLine = v.lines techniques := by
  simp only [rejections, Technique.programs, Verifier.lines, List.filterMap_flatMap,
    List.map_flatMap, List.map_filterMap, Option.map_map]
  rfl

/-- Some program is rejected. -/
def Verifier.Rejects (v : Verifier) (techniques : List Technique) : Prop :=
  ∃ t ∈ techniques, ∃ pass ∈ t.passes, ∃ p ∈ pass.programs, ∃ reason, v p = some reason

theorem Verifier.rejects_iff {techniques : List Technique} :
    v.Rejects techniques ↔ rejections v techniques ≠ [] := by
  constructor
  · rintro ⟨t, ht, pass, hpass, p, hp, reason, hreason⟩ hnil
    have haccepted := rejections_eq_nil.1 hnil t ht p (List.mem_flatMap.2 ⟨pass, hpass, hp⟩)
    rw [hreason] at haccepted
    cases haccepted
  · intro hne
    obtain ⟨r, hr⟩ := List.exists_mem_of_ne_nil _ hne
    obtain ⟨p, hp, hreason⟩ := List.mem_filterMap.1 hr
    obtain ⟨t, ht, hp⟩ := List.mem_flatMap.1 hp
    obtain ⟨pass, hpass, hp⟩ := List.mem_flatMap.1 hp
    obtain ⟨reason, hreason, -⟩ := Option.map_eq_some_iff.1 hreason
    exact ⟨t, ht, pass, hpass, p, hp, reason, hreason⟩

/-- Verification fails just if some program is rejected, and reports all that are. -/
theorem verify_eq_error_iff {techniques : List Technique} {e : CompileError} :
    verify v techniques = .error e ↔
      v.Rejects techniques ∧ e = .gpuProgram (String.join (v.lines techniques)) := by
  rw [Verifier.rejects_iff, ← map_rejectionLine_rejections, verify]
  cases rejections v techniques with
  | nil => simp
  | cons r rs => simp [eq_comm]

/-! ## Accepted shaders -/

/-- All programs of a shader are accepted, and so are those of its sub-shaders, however deep they
are nested. -/
inductive Shader.Accepted (v : Verifier) : Shader → Prop
  | of {s : Shader}
      (techniques : ∀ t ∈ s.techniques, ∀ pass ∈ t.passes, ∀ p ∈ pass.programs, v p = none)
      (subShaders : ∀ x ∈ s.subShaders, Accepted v x.shader) : Accepted v s

theorem Shader.Accepted.techniques {s : Shader} (h : s.Accepted v) :
    ∀ t ∈ s.techniques, ∀ pass ∈ t.passes, ∀ p ∈ pass.programs, v p = none := by
  cases h
  assumption

/-- A shader that completes an extension point is accepted if its compilation came to accepted
programs. -/
theorem SubShader.accepted_ofCompiled {name : String} {compiled : Shader}
    (h : compiled.Accepted v) : (SubShader.ofCompiled name compiled).shader.Accepted v :=
  .of h.techniques nofun

namespace Compiler

variable {c : Compiler (StateM σ)} {name source : String} {defines : Table String}

/-- The programs of a shader are shown to the backend before its sub-shaders are compiled. -/
theorem accepted_of_compileOwn (hverify : c.config.verify = true) (hv : c.verifier? = some v)
    {d : Document} {catalog : Catalog} {s : Shader}
    (h : Gives (c.compileOwn name source defines) (d, catalog, s)) :
    ∀ t ∈ s.techniques, ∀ pass ∈ t.passes, ∀ p ∈ pass.programs, v p = none := by
  rw [compileOwn, compileOwnBy] at h
  obtain ⟨d', -, h⟩ := h.bind
  obtain ⟨populated, -, h⟩ := h.bind
  obtain ⟨outputs, -, h⟩ := h.bind
  obtain ⟨s', -, h⟩ := h.bind
  simp only [hverify, hv] at h
  obtain ⟨⟨⟩, hshown, h⟩ := h.bind
  cases h.of_pure
  have haccepted := verify_eq_ok.1 hshown.of_ofExcept
  exact fun t ht pass hpass p hp => haccepted t ht p (List.mem_flatMap.2 ⟨pass, hpass, hp⟩)

/-- A compiled shader is accepted, whatever depth its sub-shaders may have. -/
theorem accepted_of_compileTo (hverify : c.config.verify = true) (hv : c.verifier? = some v)
    {depth : Nat} {s : Shader} (h : Gives (c.compileTo depth name source defines) s) :
    s.Accepted v := by
  induction depth generalizing name source defines s with
  | zero => exact absurd h (Gives.not_throw _)
  | succ depth ih =>
    rw [compileTo_succ] at h
    obtain ⟨⟨d, catalog, own⟩, hown, h⟩ := h.bind
    obtain ⟨slots, hslots, h⟩ := h.bind
    cases h.of_pure
    have haccepted := accepted_of_compileOwn hverify hv hown
    -- Every sub-shader completes a slot, and was compiled one level deeper.
    have hsubs : ∀ xs ∈ slots, ∀ x ∈ xs, x.shader.Accepted v := by
      refine forall_mem_of_forall₂ hslots.of_mapM fun slot xs hxs => ?_
      obtain ⟨points, -, hxs⟩ := hxs.bind
      refine forall_mem_of_forall₂ hxs.of_mapM fun p x hx => ?_
      obtain ⟨compiled, hcompiled, hx⟩ := hx.bind
      rw [← hx.of_pure]
      exact SubShader.accepted_ofCompiled (ih hcompiled)
    refine .of haccepted fun x hx => ?_
    obtain ⟨xs, hxs, hx⟩ := List.mem_flatten.1 hx
    exact hsubs xs hxs x hx

/-- With a backend, every program of a compiled shader and of its sub-shaders was accepted, however
the shaders for its extension points bring in further ones. Verification fails just if a program is
rejected, and reports one line for each rejected program in the order of the programs. -/
theorem shipped_programs_accepted (c : Compiler (StateM σ)) (v : Verifier) :
    (c.config.verify = true → c.verifier? = some v → ∀ depth name source defines s,
      Gives (c.compileTo depth name source defines) s → s.Accepted v) ∧
    ∀ techniques e, verify v techniques = .error e ↔
      v.Rejects techniques ∧ e = .gpuProgram (String.join (v.lines techniques)) :=
  ⟨fun hverify hv _ _ _ _ _ h => accepted_of_compileTo hverify hv h,
    fun _ _ => verify_eq_error_iff⟩

end Compiler

/-- A backend without compute programs. -/
def Verifier.withoutCompute : Verifier := fun p =>
  if p.stage = .compute then some (p.entryPoint ++ " is not supported") else none

/-- A compiler with such a backend, and a shader for an extension point. -/
def Compiler.guarded : Compiler (StateM Unit) :=
  ⟨{ Config.standard with verify := true }, fun _ => none, .echoing,
    .ofTable (.ofList [("P", [⟨"X", "shader X \x7b code \x7bx\x7d \x7d", .empty⟩])]),
    some .withoutCompute⟩

/-- Programs of all six stages, in one pass. -/
def Technique.full : Technique :=
  ⟨.hlsl, [], .empty, [⟨.standard, Stage.all.map fun stage => ⟨stage, .hlsl, "main", ""⟩⟩]⟩

/-- Two programs of a shader and two of its sub-shader, none of which is for the compute stage. And
two rejected programs among twelve. -/
theorem Compiler.shipped_programs_accepted_guarded :
    (∃ s, Gives (guarded.compileTo nestingLimit "S"
        "shader T \x7b code \x7bt\x7d \x7d subshader P \x7b \x7d" .empty) s ∧
      s.techniques.map (fun t => t.programs.map (·.source)) = [["t", "t"]] ∧
      s.subShaders.map (fun x => x.shader.techniques.map fun t => t.programs.map (·.source)) =
        [[["x", "x"]]] ∧
      s.Accepted .withoutCompute) ∧
    verify .withoutCompute [.full, .full] = .error (.gpuProgram
      "Compute program: main is not supported\nCompute program: main is not supported\n") := by
  have hrun : ((guarded.compileTo nestingLimit "S"
      "shader T \x7b code \x7bt\x7d \x7d subshader P \x7b \x7d" .empty).run.run ()).1.toOption.map
        (fun s => (s.techniques.map (fun t => t.programs.map (·.source)),
          s.subShaders.map fun x => x.shader.techniques.map fun t => t.programs.map (·.source))) =
      some ([["t", "t"]], [[["x", "x"]]]) := by decide +kernel
  obtain ⟨s, hs, hprograms⟩ := Option.map_eq_some_iff.1 hrun
  have hgives := Gives.of_toOption hs
  obtain ⟨hown, hsub⟩ := Prod.mk.inj hprograms
  have hboth := shipped_programs_accepted guarded .withoutCompute
  refine ⟨⟨s, hgives, hown, hsub, hboth.1 rfl rfl _ _ _ _ s hgives⟩, (hboth.2 _ _).2 ⟨?_, ?_⟩⟩
  · exact ⟨.full, by simp, _, List.mem_singleton_self _, ⟨.compute, .hlsl, "main", ""⟩, by decide,
      _, rfl⟩
  · decide

end ShaderLang
