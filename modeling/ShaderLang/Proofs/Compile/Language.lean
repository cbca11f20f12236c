import Mathlib.Data.List.Basic
import Mathlib.Data.List.Forall2
import ShaderLang.Proofs.Compile.Lineup
/-!
# Languages do not influence each other

A compilation walks over the passes of a shader once, and within each pass over all languages that
are asked for, so that the work for one language lies between that for the others. What comes of a
language is the same all the same, whatever else is asked for: what is reflected belongs to the pass
alone, and the bindings of a pass are counted anew in each language.

## Main definitions

* `Language.target`, `Technique.inTarget` — the language to ask for; the techniques for it
* `Compiler.withLanguages` — a compiler that is asked for other languages
* `Shader.AgreesIn` — shaders that agree but for techniques in further languages, at all levels of
  sub-shaders

## Main results

* `Technique.forall₂_inTarget` — techniques for a language are among all that are built
* `Compiler.alike_compileTo` — compilations for any languages agree in those that both make
* `Compiler.languages_independent` — the same of whole descriptions
-/

namespace ShaderLang

variable {σ : Type}

/-! ## Techniques for a language -/

/-- The language to ask for so that programs are made in a language. -/
def Language.target : Language → TargetLanguage
  | .hlsl => .hlsl
  | .glsl | .glsl41 => .glsl
  | .vksl => .vksl
  | .mvksl => .msl

theorem TargetLanguage.target_dialect (l : TargetLanguage) (featureSet : Option String) :
    (l.dialect featureSet).language.target = l := by
  cases l with
  | glsl =>
    rw [dialect]
    split <;> rfl
  | hlsl | vksl | msl => rfl

/-- The techniques that are made for a language, in their order. -/
def Technique.inTarget (l : TargetLanguage) (ts : List Technique) : List Technique :=
  ts.filter (·.language.target = l)

theorem Technique.inTarget_append (l : TargetLanguage) (ts others : List Technique) :
    inTarget l (ts ++ others) = inTarget l ts ++ inTarget l others := List.filter_append ..

/-- A language that is asked for is built for once. -/
theorem Config.filter_targets {c : Config} {l : TargetLanguage} (h : l ∈ c.languages) :
    c.targets.filter (· = l) = [l] := by
  have hall : TargetLanguage.all.filter (· = l) = [l] := by cases l <;> rfl
  rw [targets, List.filter_comm, hall, List.filter_cons_of_pos (List.contains_iff_mem.2 h),
    List.filter_nil]

section

variable {c : Converter (StateM σ)} {shader : Declaration} {featureSet : Option String}
  {v : Variation} {reports : List PassReport} {targets : List TargetLanguage}

/-- Techniques for a language show what is reported, as all techniques do. -/
theorem Technique.forall₂_inTarget {ts : List Technique}
    (h : List.Forall₂ (Technique.Shows c shader featureSet v reports) targets ts)
    (l : TargetLanguage) :
    List.Forall₂ (Technique.Shows c shader featureSet v reports) (targets.filter (· = l))
      (inTarget l ts) := by
  induction h with
  | nil => exact .nil
  | @cons l' t _ _ ht _ ih =>
    have htarget : t.language.target = l' := by rw [ht.language, l'.target_dialect]
    -- A technique is left out just where its language is.
    rw [inTarget, List.filter_cons, List.filter_cons, htarget]
    split
    · exact .cons ht ih
    · exact ih

end

/-! ## Agreement -/

/-- What is built of shaders agrees: the techniques for some languages, and all that is
reflected. -/
structure BuiltAlike (ls : List TargetLanguage) (r r' : List Technique × List Reflection) :
    Prop where
  techniques : ∀ l ∈ ls, Technique.inTarget l r.1 = Technique.inTarget l r'.1
  reflections : r.2 = r'.2

/-- Outputs of jobs agree: the techniques for some languages, and all else. -/
structure JobOutput.AgreesIn (ls : List TargetLanguage) (o o' : JobOutput) : Prop where
  techniques : ∀ l ∈ ls, Technique.inTarget l o.techniques = Technique.inTarget l o'.techniques
  reflections : o.reflections = o'.reflections
  includes : o.includes = o'.includes

/-- Shaders agree, their sub-shaders aside: the techniques for some languages, and all else. -/
structure Shader.OwnAgreesIn (ls : List TargetLanguage) (s s' : Shader) : Prop where
  name : s.name = s'.name
  options : s.options = s'.options
  techniques : ∀ l ∈ ls, Technique.inTarget l s.techniques = Technique.inTarget l s'.techniques
  params : s.params = s'.params
  variationParams : s.variationParams = s'.variationParams
  includes : s.includes = s'.includes

mutual

/-- Shaders agree with all their sub-shaders: the techniques for some languages, and all else. -/
inductive Shader.AgreesIn (ls : List TargetLanguage) : Shader → Shader → Prop
  | intro {s s' : Shader} (own : Shader.OwnAgreesIn ls s s')
      (subShaders : List.Forall₂ (SubShader.AgreesIn ls) s.subShaders s'.subShaders) :
      Shader.AgreesIn ls s s'

/-- Sub-shaders agree, name and shader. -/
inductive SubShader.AgreesIn (ls : List TargetLanguage) : SubShader → SubShader → Prop
  | intro {s s' : SubShader} (name : s.name = s'.name)
      (shader : Shader.AgreesIn ls s.shader s'.shader) : SubShader.AgreesIn ls s s'

end

variable {ls ls' : List TargetLanguage}

theorem BuiltAlike.append {r r' o o' : List Technique × List Reflection} (h : BuiltAlike ls r r')
    (ho : BuiltAlike ls o o') :
    BuiltAlike ls (r.1 ++ o.1, r.2 ++ o.2) (r'.1 ++ o'.1, r'.2 ++ o'.2) where
  techniques l hl := by
    rw [Technique.inTarget_append, Technique.inTarget_append, h.techniques l hl,
      ho.techniques l hl]
  reflections := by rw [h.reflections, ho.reflections]

theorem Shader.AgreesIn.ofCompiled {s s' : Shader} (h : s.AgreesIn ls s') (name : String) :
    SubShader.AgreesIn ls (.ofCompiled name s) (.ofCompiled name s') := by
  obtain ⟨hown, -⟩ := h
  exact .intro rfl (.intro ⟨rfl, rfl, hown.techniques, rfl, rfl, rfl⟩ .nil)

theorem flatMap_eq_of_forall₂ {α β γ : Type} {R : α → β → Prop} {f : α → List γ} {g : β → List γ}
    {l : List α} {l' : List β} (h : List.Forall₂ R l l') (hR : ∀ a b, R a b → g b = f a) :
    l'.flatMap g = l.flatMap f := by
  rw [List.flatMap_def, List.flatMap_def, map_eq_map_of_forall₂ h hR]

/-- Shaders put together from outputs that agree do so as well. -/
theorem Shader.assemble_agreesIn {strict : Bool} {name : String} {catalog : Catalog}
    {populated : List Declaration} {outs outs' : List JobOutput} {s s' : Shader}
    (h : List.Forall₂ (JobOutput.AgreesIn ls) outs outs')
    (hs : assemble strict name catalog populated outs = .ok s)
    (hs' : assemble strict name catalog populated outs' = .ok s') : s.OwnAgreesIn ls s' := by
  obtain ⟨params, hparams, rfl⟩ := Outcome.map_eq_ok_iff.1 hs
  obtain ⟨params', hparams', rfl⟩ := Outcome.map_eq_ok_iff.1 hs'
  have hreflections := flatMap_eq_of_forall₂ h fun o o' h => h.reflections.symm
  rw [hreflections, hparams] at hparams'
  cases hparams'
  refine ⟨rfl, rfl, fun l hl => ?_, rfl, rfl, ?_⟩
  -- A language's techniques of all outputs are those of each output, one behind the other.
  · have htechniques := flatMap_eq_of_forall₂ h fun o o' h => (h.techniques l hl).symm
    simpa only [Technique.inTarget, List.filter_flatMap] using htechniques.symm
  · have hincludes := map_eq_map_of_forall₂ h fun o o' h => h.includes.symm
    simpa only [List.foldl_map] using (congrArg (List.foldl addNew []) hincludes).symm

/-! ## Two compilations -/

/-- A compiler that is asked for some languages, and else does as it did. -/
def Compiler.withLanguages {m : Type → Type} (c : Compiler m) (languages : List TargetLanguage) :
    Compiler m :=
  { c with config := { c.config with languages } }

theorem alike_buildTechniques {c : Converter (StateM σ)} (hc : c.Steady)
    {targets targets' : List TargetLanguage} {set : PassSet} (hset : set.passes ≠ [])
    (htargets : ∀ l ∈ ls, targets.filter (· = l) = targets'.filter (· = l)) (shader : Declaration)
    (v : Variation) :
    GivesAlike (BuiltAlike ls) (buildTechniques c targets shader set v)
      (buildTechniques c targets' shader set v) := by
  intro r r' h h'
  obtain ⟨reports, hreflections, hshows, hshows'⟩ := hc.exists_reports hset h h'
  refine ⟨fun l hl => ?_, hreflections⟩
  have hsame := Technique.forall₂_inTarget hshows' l
  rw [← htargets l hl] at hsame
  exact List.right_unique_forall₂' (hc.techniques_unique _ _ _ _)
    (Technique.forall₂_inTarget hshows l) hsame

namespace Compiler

variable {c : Compiler (StateM σ)}

/-- Languages that are asked for in both cases are built for once in both. -/
theorem filter_targets_withLanguages (c : Compiler (StateM σ)) (ls ls' : List TargetLanguage) :
    ∀ l ∈ ls ∩ ls', (c.withLanguages ls).config.targets.filter (· = l) =
      (c.withLanguages ls').config.targets.filter (· = l) := by
  intro l hl
  obtain ⟨hl, hl'⟩ := List.mem_inter_iff.1 hl
  rw [Config.filter_targets hl, Config.filter_targets hl']

theorem alike_buildShaders (hc : c.converter.Steady) (d : Document) (ds : List Declaration)
    (v : Variation) (shaders : List Declaration) :
    GivesAlike (BuiltAlike (ls ∩ ls')) (buildShaders (c.withLanguages ls) d ds v shaders)
      (buildShaders (c.withLanguages ls') d ds v shaders) := by
  induction shaders with
  | nil => exact .pure ⟨fun _ _ => rfl, rfl⟩
  | cons shader shaders ih =>
    refine .bind (.ofExcept _) ?_
    rintro set _ ⟨rfl, hset⟩
    refine .bind (alike_buildTechniques hc (PassSet.passes_ne_nil hset)
      (filter_targets_withLanguages c ls ls') shader v) ?_
    rintro ⟨techniques, reflections⟩ ⟨techniques', reflections'⟩ hbuilt
    refine .bind ih ?_
    rintro ⟨others, more⟩ ⟨others', more'⟩ hothers
    exact .pure (hbuilt.append hothers)

theorem alike_run (hc : c.converter.Steady) (source : String) (defines : Table String) (j : Job) :
    GivesAlike (JobOutput.AgreesIn (ls ∩ ls')) (j.run (c.withLanguages ls) source defines)
      (j.run (c.withLanguages ls') source defines) := by
  refine .bind (.ofExcept _) ?_
  rintro d _ ⟨rfl, -⟩
  refine .bind (alike_buildShaders hc d _ j.variation _) ?_
  rintro ⟨techniques, reflections⟩ ⟨techniques', reflections'⟩ h
  exact .pure ⟨h.techniques, h.reflections, rfl⟩

theorem alike_compileOwn (hc : c.converter.Steady) (name source : String)
    (defines : Table String) :
    GivesAlike (fun r r' => r.1 = r'.1 ∧ r.2.1 = r'.2.1 ∧ r.2.2.OwnAgreesIn (ls ∩ ls') r'.2.2)
      ((c.withLanguages ls).compileOwn name source defines)
      ((c.withLanguages ls').compileOwn name source defines) := by
  intro r r' h h'
  obtain ⟨d, populated, outs, shader, rfl, hd, hpopulated, houts, hshader⟩ := exists_of_compileOwn h
  obtain ⟨d', populated', outs', shader', rfl, hd', hpopulated', houts', hshader'⟩ :=
    exists_of_compileOwn h'
  cases Except.ok.inj (hd.symm.trans hd')
  cases Except.ok.inj (hpopulated.symm.trans hpopulated')
  -- The jobs are the same, and each of them gives alike.
  have hjobs : List.Forall₂ (GivesAlike (JobOutput.AgreesIn (ls ∩ ls')))
      ((Job.all populated).map (·.run (c.withLanguages ls) source defines))
      ((Job.all populated).map (·.run (c.withLanguages ls') source defines)) := by
    rw [List.forall₂_map_left_iff, List.forall₂_map_right_iff, List.forall₂_same]
    exact fun j _ => alike_run hc source defines j
  exact ⟨rfl, rfl, Shader.assemble_agreesIn (GivesAlike.forall₂ hjobs houts houts') hshader
    hshader'⟩

/-- Compilations for any languages agree in those that both are asked for, with sub-shaders up to
any depth. -/
theorem alike_compileTo (hc : c.converter.Steady) (depth : Nat) (name source : String)
    (defines : Table String) :
    GivesAlike (Shader.AgreesIn (ls ∩ ls'))
      ((c.withLanguages ls).compileTo depth name source defines)
      ((c.withLanguages ls').compileTo depth name source defines) := by
  induction depth generalizing name source defines with
  | zero => exact .throw _ _
  | succ depth ih =>
    rw [compileTo_succ, compileTo_succ]
    refine .bind (alike_compileOwn hc name source defines) ?_
    rintro ⟨d, catalog, shader⟩ ⟨_, _, shader'⟩ ⟨rfl, rfl, h⟩
    -- Both look up the same shaders for the same slots, and go one level less deep in each.
    refine .bind (.mapM (R := List.Forall₂ (SubShader.AgreesIn (ls ∩ ls'))) (fun slot => ?_)
      catalog.subShaders) fun ss ss' hss => ?_
    · refine .bind (.ofExcept _) ?_
      rintro points _ ⟨rfl, -⟩
      refine .mapM (fun p => ?_) points
      exact .bind (ih p.name p.source p.defines) fun s s' hs => .pure (hs.ofCompiled p.name)
    · exact .pure (.intro ⟨h.name, h.options, h.techniques, h.params, h.variationParams, h.includes⟩
        (List.rel_flatten hss))

/-- Languages do not influence each other. Two compilations of a description that ask for different
languages, and each come to a shader, agree in all that is not a technique, and in the techniques
for each language that both ask for, which are the same in the same order. So do their sub-shaders
at every level. -/
theorem languages_independent (hc : c.converter.Steady) {name source : String} {s s' : Shader}
    (h : Gives ((c.withLanguages ls).compile name source) s)
    (h' : Gives ((c.withLanguages ls').compile name source) s') : s.AgreesIn (ls ∩ ls') s' :=
  alike_compileTo hc nestingLimit name source c.config.defines s s' h h'

end Compiler

/-- How many programs each technique has, with its language. -/
def Shader.counts (s : Shader) : List (Language × Nat) :=
  s.techniques.map fun t => (t.language, t.programs.length)

/-- A compiler with a converter that leaves every program as it is, and with a shader that completes
the extension point `P`. -/
def Compiler.completing : Compiler (StateM Unit) :=
  { echoing [] with
    extensions := .ofTable (.ofList [("P", [⟨"X", "shader X \x7b code \x7bw\x7d \x7d", .empty⟩])]) }

/-- A description with a sub-shader, compiled for two languages each time. One of them is the same,
and so is what comes of it. -/
theorem Compiler.languages_independent_shared :
    ∃ source s s', Gives ((completing.withLanguages [.hlsl, .glsl]).compile "S" source) s ∧
      Gives ((completing.withLanguages [.glsl, .vksl]).compile "S" source) s' ∧
      (s.counts, s.subShaders.map (·.shader.counts)) =
        ([(.hlsl, 2), (.glsl41, 2)], [[(.hlsl, 2), (.glsl41, 2)]]) ∧
      (s'.counts, s'.subShaders.map (·.shader.counts)) =
        ([(.glsl41, 2), (.vksl, 2)], [[(.glsl41, 2), (.vksl, 2)]]) ∧
      completing.converter.Steady ∧ s.AgreesIn ([.hlsl, .glsl] ∩ [.glsl, .vksl]) s' := by
  have hrun : (((completing.withLanguages [.hlsl, .glsl]).compile "S"
      "shader T \x7b code \x7bv\x7d \x7d subshader P \x7b \x7d").run.run ()).1.toOption.map
        (fun s => (s.counts, s.subShaders.map (·.shader.counts))) =
      some ([(.hlsl, 2), (.glsl41, 2)], [[(.hlsl, 2), (.glsl41, 2)]]) := by decide +kernel
  have hrun' : (((completing.withLanguages [.glsl, .vksl]).compile "S"
      "shader T \x7b code \x7bv\x7d \x7d subshader P \x7b \x7d").run.run ()).1.toOption.map
        (fun s => (s.counts, s.subShaders.map (·.shader.counts))) =
      some ([(.glsl41, 2), (.vksl, 2)], [[(.glsl41, 2), (.vksl, 2)]]) := by decide +kernel
  obtain ⟨s, hs, hcounts⟩ := Option.map_eq_some_iff.1 hrun
  obtain ⟨s', hs', hcounts'⟩ := Option.map_eq_some_iff.1 hrun'
  have hgives := Gives.of_toOption hs
  have hgives' := Gives.of_toOption hs'
  have hsteady : completing.converter.Steady := Converter.steady_of_function _
  exact ⟨_, s, s', hgives, hgives', hcounts, hcounts', hsteady,
    languages_independent hsteady hgives hgives'⟩

end ShaderLang
