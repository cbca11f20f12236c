import Mathlib.Algebra.Order.Ring.Nat
import Mathlib.Data.List.Forall2
import Mathlib.Data.List.Nodup
import Mathlib.Data.Nat.SuccPred
import ShaderLang.Proofs.Compile.Technique
import ShaderLang.Proofs.Render.Sharing
import ShaderLang.Proofs.Variation.CrossProduct
/-!
# How often techniques are built

A technique is built of a declaration under a variation, once for each language. The source is read
anew under each variation, so that a declaration is told by its position in that reading. A job has
the name of the shader that it is for, and builds all declarations of this name. A source that
declares a name twice has two jobs for each of these declarations, and parameters that do not tell
their values apart have two jobs for one variation; then techniques are built twice.

## Main definitions

* `Origin` — a declaration under a variation
* `Compiler.origins` — the origins of the techniques of a compilation, in order
* `Compiler.Builds` — what is built of an origin
* `Declaration.Distinct` — shaders with distinct names and parameters with distinct choices

## Main results

* `Gives.languages_buildTechniques` — a declaration has one technique for each language
* `Compiler.exists_of_compileOwn` — what a compilation consists of, apart from sub-shaders
* `Compiler.builds_of_compileTo` — a compilation builds its origins, one behind the other
* `Compiler.nodup_allKeys_iff` — nothing is built twice just if no origin comes twice
* `Compiler.techniques_built_once` — a compilation builds nothing twice if names and choices are
  distinct
* `Compiler.techniques_built_twice` — and does so if a name is declared twice
-/

namespace ShaderLang

variable {σ : Type}

/-! ## One technique for each language -/

/-- Whatever is merged, there is a pass. -/
theorem PassSet.passes_ne_nil {doc : Document} {ds : List Declaration} {d : Declaration}
    {set : PassSet} (h : PassSet.ofDeclaration doc ds d = .ok set) : set.passes ≠ [] := by
  obtain ⟨is, -, hset⟩ := Declaration.ofDeclaration_eq_ok_iff.1 h
  have hfirst : (at? set.passes 0).isSome := by
    rw [hset, List.map_append, List.map_singleton]
    exact (isSome_at?_ofBodies _ _ 0).2 (by simp [madeFrom_zero])
  intro hnil
  rw [hnil] at hfirst
  cases hfirst

/-- There is one technique for each language, under the variation. -/
theorem Gives.languages_buildTechniques {c : Converter (StateM σ)} {targets : List TargetLanguage}
    {shader : Declaration} {set : PassSet} {v : Variation} {r : List Technique × List Reflection}
    (h : Gives (buildTechniques c targets shader set v) r) (hset : set.passes ≠ []) :
    r.1.map (fun t => (t.language, t.variation)) =
      targets.map fun l => ((l.dialect set.featureSet).language, v) := by
  obtain ⟨reports, -, -, hshows⟩ := h.of_buildTechniques hset
  exact map_eq_map_of_forall₂ hshows fun l t ht => Prod.ext ht.language ht.variation

/-- The languages of the dialects differ, whatever the feature set. -/
theorem TargetLanguage.language_dialect_injective (featureSet : Option String) :
    Function.Injective fun l : TargetLanguage => (l.dialect featureSet).language := by
  intro l l' h
  by_cases hset : featureSet = some "HighEnd" <;> cases l <;> cases l' <;>
    simp_all [TargetLanguage.dialect]

/-! ## Origins -/

/-- A declaration, by its position in the source as it is read under a variation. -/
structure Origin where
  variation : Variation
  position : Nat
  deriving DecidableEq

/-- The positions of the shaders of a name. -/
def Declaration.positions (ds : List Declaration) (name : String) : List Nat :=
  (ds.zipIdx.filter fun s => !s.1.isMixin && s.1.name == name).map (·.2)

theorem Declaration.filter_eq_map_zipIdx (p : Declaration → Bool) (ds : List Declaration) :
    ds.filter p = (ds.zipIdx.filter fun s => p s.1).map (·.1) := by
  conv_lhs => rw [← List.zipIdx_map_fst 0 ds, List.filter_map]
  rfl

theorem Declaration.get_of_mem_filter_zipIdx {p : Declaration × Nat → Bool}
    {ds : List Declaration} {s : Declaration × Nat} (h : s ∈ ds.zipIdx.filter p) :
    ds[s.2]? = some s.1 := List.mem_zipIdx_iff_getElem?.1 (List.mem_filter.1 h).1

theorem Declaration.mem_positions_iff {ds : List Declaration} {name : String} {i : Nat} :
    i ∈ positions ds name ↔
      ∃ d, ds[i]? = some d ∧ d.isMixin = false ∧ d.name = name := by
  simp [positions, List.mem_zipIdx_iff_getElem?]

theorem Declaration.nodup_positions (ds : List Declaration) (name : String) :
    (positions ds name).Nodup := by
  refine List.Nodup.sublist (List.filter_sublist.map _) ?_
  rw [List.zipIdx_map_snd]
  exact List.nodup_range'

namespace Compiler

variable {m : Type → Type}

/-- The origins of the techniques of a job. -/
def originsOf (c : Compiler m) (source : String) (defines : Table String) (j : Job) :
    List Origin :=
  match Document.read source (j.variation.defines defines) c.includes with
  | .error _ => []
  | .ok d => (Declaration.positions (Catalog.ofDocument d).declarations j.shader).map fun i =>
      ⟨j.variation, i⟩

/-- The origins of the techniques of a compilation, in order. -/
def origins (c : Compiler m) (source : String) (defines : Table String)
    (populated : List Declaration) : List Origin :=
  (Job.all populated).flatMap (c.originsOf source defines)

/-- The techniques that a shader of a source read under a variation is built to. -/
def Builds (c : Compiler (StateM σ)) (source : String) (defines : Table String) (o : Origin)
    (techniques : List Technique) : Prop :=
  ∃ d shader set reflections,
    Document.read source (o.variation.defines defines) c.includes = .ok d ∧
    (Catalog.ofDocument d).declarations[o.position]? = some shader ∧
    PassSet.ofDeclaration d (Catalog.ofDocument d).declarations shader = .ok set ∧
    Gives (buildTechniques c.converter c.config.targets shader set o.variation)
      (techniques, reflections)

variable {c : Compiler (StateM σ)} {source : String} {defines : Table String}

theorem segments_of_buildShaders {d : Document} {ds shaders : List Declaration} {v : Variation}
    {r : List Technique × List Reflection} (h : Gives (buildShaders c d ds v shaders) r) :
    ∃ segments, r.1 = segments.flatten ∧
      List.Forall₂ (fun shader techniques => ∃ set reflections,
        PassSet.ofDeclaration d ds shader = .ok set ∧
        Gives (buildTechniques c.converter c.config.targets shader set v)
          (techniques, reflections)) shaders segments := by
  induction shaders generalizing r with
  | nil =>
    cases Gives.of_pure h
    exact ⟨[], rfl, .nil⟩
  | cons shader shaders ih =>
    obtain ⟨set, hset, h⟩ := h.bind
    obtain ⟨⟨techniques, reflections⟩, hbuilt, h⟩ := h.bind
    obtain ⟨⟨others, more⟩, hothers, h⟩ := h.bind
    cases Gives.of_pure h
    obtain ⟨segments, hsegments, hall⟩ := ih hothers
    refine ⟨techniques :: segments, ?_, .cons ⟨set, reflections, hset.of_ofExcept, hbuilt⟩ hall⟩
    rw [List.flatten_cons, ← hsegments]

/-- A job builds its origins. -/
theorem builds_of_run {j : Job} {out : JobOutput} (h : Gives (j.run c source defines) out) :
    ∃ segments, out.techniques = segments.flatten ∧
      List.Forall₂ (c.Builds source defines) (c.originsOf source defines j) segments := by
  obtain ⟨d, hd, h⟩ := h.bind
  obtain ⟨⟨techniques, reflections⟩, hbuilt, h⟩ := h.bind
  cases Gives.of_pure h
  obtain ⟨segments, hsegments, hall⟩ := segments_of_buildShaders hbuilt
  have hread := Outcome.mapError_eq_ok_iff.1 hd.of_ofExcept
  -- The declarations of the name are told by their positions.
  rw [Declaration.filter_eq_map_zipIdx, List.forall₂_map_left_iff] at hall
  refine ⟨segments, hsegments, ?_⟩
  rw [originsOf, hread]
  simp only [Declaration.positions, List.forall₂_map_left_iff]
  refine ((List.forall₂_and_left _ _).2
    ⟨fun _ => Declaration.get_of_mem_filter_zipIdx, hall⟩).imp ?_
  rintro ⟨shader, i⟩ techniques ⟨hget, set, reflections, hset, hgives⟩
  exact ⟨d, shader, set, reflections, hread, hget, hset, hgives⟩

theorem builds_of_jobs {jobs : List Job} {outs : List JobOutput}
    (h : List.Forall₂ (fun j out => Gives (j.run c source defines) out) jobs outs) :
    ∃ segments, outs.flatMap (·.techniques) = segments.flatten ∧
      List.Forall₂ (c.Builds source defines) (jobs.flatMap (c.originsOf source defines))
        segments := by
  induction h with
  | nil => exact ⟨[], rfl, .nil⟩
  | cons hj _ ih =>
    obtain ⟨segments, hsegments, hall⟩ := builds_of_run hj
    obtain ⟨others, hothers, hrest⟩ := ih
    refine ⟨segments ++ others, ?_, List.rel_append hall hrest⟩
    rw [List.flatMap_cons, hsegments, hothers, List.flatten_append]

/-- Apart from sub-shaders, a compilation puts together what its jobs give. -/
theorem exists_of_compileOwn {name : String} {r : Document × Catalog × Shader}
    (h : Gives (c.compileOwn name source defines) r) :
    ∃ d populated outs shader, r = (d, Catalog.ofDocument d, shader) ∧
      Document.read source defines c.includes = .ok d ∧
      Declaration.populate (Catalog.ofDocument d).declarations = .ok populated ∧
      List.Forall₂ Gives ((Job.all populated).map (·.run c source defines)) outs ∧
      Shader.assemble c.config.strict name (Catalog.ofDocument d) populated outs = .ok shader := by
  obtain ⟨d, hd, h⟩ := h.bind
  obtain ⟨populated, hpopulated, h⟩ := h.bind
  obtain ⟨outs, houts, h⟩ := h.bind
  obtain ⟨shader, hshader, h⟩ := h.bind
  -- Verification may stop the compilation, and changes nothing else.
  have hr : (d, Catalog.ofDocument d, shader) = r := by
    dsimp only at h
    split at h
    · obtain ⟨-, -, h⟩ := h.bind
      exact h.of_pure
    · exact h.of_pure
  exact ⟨d, populated, outs, shader, hr.symm, Outcome.mapError_eq_ok_iff.1 hd.of_ofExcept,
    Outcome.mapError_eq_ok_iff.1 hpopulated.of_ofExcept, Gives.of_runJobs houts,
    hshader.of_ofExcept⟩

/-- A compilation builds its origins, one behind the other, however deep it may go. -/
theorem builds_of_compileTo {depth : Nat} {name : String} {s : Shader}
    (h : Gives (c.compileTo depth name source defines) s) :
    ∃ d populated, Document.read source defines c.includes = .ok d ∧
      Declaration.populate (Catalog.ofDocument d).declarations = .ok populated ∧
      ∃ segments, s.techniques = segments.flatten ∧
        List.Forall₂ (c.Builds source defines) (c.origins source defines populated) segments := by
  cases depth with
  | zero => exact absurd h (Gives.not_throw _)
  | succ depth =>
    rw [compileTo_succ] at h
    obtain ⟨⟨d, catalog, shader⟩, hown, h⟩ := h.bind
    -- Sub-shaders are filled in later and change no technique.
    obtain ⟨subShaders, -, h⟩ := h.bind
    cases Gives.of_pure h
    obtain ⟨d, populated, outs, shader, heq, hd, hpopulated, houts, hshader⟩ :=
      exists_of_compileOwn hown
    cases heq
    obtain ⟨params, -, rfl⟩ := Outcome.map_eq_ok_iff.1 hshader
    exact ⟨d, populated, hd, hpopulated, builds_of_jobs (List.forall₂_map_left_iff.1 houts)⟩

/-! ## Nothing twice -/

/-- Techniques of an origin, each told by its declaration, its language and its variation. -/
def keys (o : Origin) (techniques : List Technique) : List (Nat × Language × Variation) :=
  techniques.map fun t => (o.position, t.language, t.variation)

/-- The keys of all techniques. -/
def allKeys (origins : List Origin) (segments : List (List Technique)) :
    List (Nat × Language × Variation) :=
  (origins.zip segments).flatMap fun s => keys s.1 s.2

variable {o : Origin} {techniques : List Technique}

theorem keys_of_gives {d : Document} {ds : List Declaration} {shader : Declaration} {set : PassSet}
    {reflections : List Reflection} (hset : PassSet.ofDeclaration d ds shader = .ok set)
    (h : Gives (buildTechniques c.converter c.config.targets shader set o.variation)
      (techniques, reflections)) :
    keys o techniques = c.config.targets.map fun l =>
      (o.position, (l.dialect set.featureSet).language, o.variation) := by
  have hlanguages := h.languages_buildTechniques (PassSet.passes_ne_nil hset)
  have hkeys := congrArg (List.map fun k => (o.position, k)) hlanguages
  rwa [List.map_map, List.map_map] at hkeys

/-- The techniques of an origin are for the languages asked for, under the variation. -/
theorem Builds.keys_eq (h : c.Builds source defines o techniques) :
    ∃ featureSet, keys o techniques = c.config.targets.map fun l =>
      (o.position, (l.dialect featureSet).language, o.variation) := by
  obtain ⟨d, shader, set, reflections, -, -, hset, hgives⟩ := h
  exact ⟨set.featureSet, keys_of_gives hset hgives⟩

/-- Whatever is built of an origin is built of the same passes. -/
theorem Builds.of_same {others : List Technique} (h : c.Builds source defines o techniques)
    (h' : c.Builds source defines o others) :
    ∃ d shader set reflections reflections',
      PassSet.ofDeclaration d (Catalog.ofDocument d).declarations shader = .ok set ∧
      Gives (buildTechniques c.converter c.config.targets shader set o.variation)
        (techniques, reflections) ∧
      Gives (buildTechniques c.converter c.config.targets shader set o.variation)
        (others, reflections') := by
  obtain ⟨d, shader, set, reflections, hd, hshader, hset, hgives⟩ := h
  obtain ⟨d', shader', set', reflections', hd', hshader', hset', hgives'⟩ := h'
  cases Except.ok.inj (hd.symm.trans hd')
  cases Option.some.inj (hshader.symm.trans hshader')
  cases Except.ok.inj (hset.symm.trans hset')
  exact ⟨d, shader, set, reflections, reflections', hset, hgives, hgives'⟩

/-- The converter has no say in the languages. -/
theorem Builds.keys_congr {others : List Technique} (h : c.Builds source defines o techniques)
    (h' : c.Builds source defines o others) : keys o techniques = keys o others := by
  obtain ⟨d, shader, set, reflections, reflections', hset, hgives, hgives'⟩ := h.of_same h'
  rw [keys_of_gives hset hgives, keys_of_gives hset hgives']

theorem Builds.nodup_keys (h : c.Builds source defines o techniques) :
    (keys o techniques).Nodup := by
  obtain ⟨featureSet, hkeys⟩ := h.keys_eq
  have htargets : c.config.targets.Nodup := List.Nodup.filter _ (by decide)
  rw [hkeys]
  refine htargets.map fun l l' hl => ?_
  exact TargetLanguage.language_dialect_injective featureSet (congrArg (·.2.1) hl)

theorem Builds.mem_keys {k : Nat × Language × Variation}
    (h : c.Builds source defines o techniques) (hk : k ∈ keys o techniques) :
    k.1 = o.position ∧ k.2.2 = o.variation := by
  obtain ⟨featureSet, hkeys⟩ := h.keys_eq
  rw [hkeys] at hk
  obtain ⟨l, -, rfl⟩ := List.mem_map.1 hk
  exact ⟨rfl, rfl⟩

theorem exists_of_mem_allKeys {os : List Origin} {segments : List (List Technique)}
    {k : Nat × Language × Variation} (h : List.Forall₂ (c.Builds source defines) os segments)
    (hk : k ∈ allKeys os segments) : ∃ o ∈ os, k.1 = o.position ∧ k.2.2 = o.variation := by
  induction h with
  | nil => cases hk
  | cons ho _ ih =>
    rw [allKeys, List.zip_cons_cons, List.flatMap_cons, List.mem_append] at hk
    rcases hk with hk | hk
    · exact ⟨_, List.mem_cons_self, ho.mem_keys hk⟩
    · obtain ⟨o, ho, heq⟩ := ih hk
      exact ⟨o, List.mem_cons_of_mem _ ho, heq⟩

theorem keys_subset_allKeys {os : List Origin} {segments : List (List Technique)}
    (h : List.Forall₂ (c.Builds source defines) os segments) (ho : o ∈ os)
    (hbuilt : c.Builds source defines o techniques) : keys o techniques ⊆ allKeys os segments := by
  induction h with
  | nil => cases ho
  | cons hfirst _ ih =>
    rw [allKeys, List.zip_cons_cons, List.flatMap_cons]
    rcases List.mem_cons.1 ho with rfl | ho
    · rw [hbuilt.keys_congr hfirst]
      exact List.subset_append_left _ _
    · exact fun k hk => List.mem_append_right _ (ih ho hk)

theorem mem_of_mem_keys_of_mem_allKeys {os : List Origin} {segments : List (List Technique)}
    {k : Nat × Language × Variation} (h : c.Builds source defines o techniques)
    (hos : List.Forall₂ (c.Builds source defines) os segments) (hk : k ∈ keys o techniques)
    (hothers : k ∈ allKeys os segments) : o ∈ os := by
  obtain ⟨o', ho', hposition', hvariation'⟩ := exists_of_mem_allKeys hos hothers
  obtain ⟨hposition, hvariation⟩ := h.mem_keys hk
  have heq : o' = o := by
    cases o
    cases o'
    simp_all
  exact heq ▸ ho'

/-- An origin shares a key with others just if it is one of them and anything is built at all. -/
theorem disjoint_allKeys_iff {os : List Origin} {segments : List (List Technique)}
    (h : c.Builds source defines o techniques)
    (hos : List.Forall₂ (c.Builds source defines) os segments) :
    List.Disjoint (keys o techniques) (allKeys os segments) ↔ c.config.targets = [] ∨ o ∉ os := by
  obtain ⟨featureSet, hkeys⟩ := h.keys_eq
  constructor
  · intro hdisjoint
    by_contra hnot
    obtain ⟨htargets, hmem⟩ := not_or.1 hnot
    have hne : keys o techniques ≠ [] := by simpa [hkeys] using htargets
    obtain ⟨k, hk⟩ := List.exists_mem_of_ne_nil _ hne
    exact hdisjoint hk (keys_subset_allKeys hos (not_not.1 hmem) h hk)
  · rintro (hnone | hmem) k hk hothers
    · simp [hkeys, hnone] at hk
    · exact hmem (mem_of_mem_keys_of_mem_allKeys h hos hk hothers)

/-- No technique is built twice just if there are none, or no origin comes twice. -/
theorem nodup_allKeys_iff {os : List Origin} {segments : List (List Technique)}
    (h : List.Forall₂ (c.Builds source defines) os segments) :
    (allKeys os segments).Nodup ↔ c.config.targets = [] ∨ os.Nodup := by
  induction h with
  | nil => simp [allKeys]
  | cons ho hos ih =>
    rw [allKeys, List.zip_cons_cons, List.flatMap_cons, List.nodup_append', ← allKeys, ih,
      disjoint_allKeys_iff ho hos, List.nodup_cons, or_and_left]
    exact ⟨fun h => ⟨h.2.2, h.2.1⟩, fun h => ⟨ho.nodup_keys, h.2, h.1⟩⟩

theorem nodup_originsOf (c : Compiler (StateM σ)) (source : String) (defines : Table String)
    (j : Job) : (c.originsOf source defines j).Nodup := by
  rw [originsOf]
  split
  · exact List.nodup_nil
  · exact (Declaration.nodup_positions _ _).map fun i i' h => congrArg Origin.position h

/-- The origins of a job are the shaders of its name, in the source as it is read under its
variation. -/
theorem mem_originsOf_iff {j : Job} : o ∈ c.originsOf source defines j ↔
    o.variation = j.variation ∧ ∃ d,
      Document.read source (j.variation.defines defines) c.includes = .ok d ∧
      ∃ shader, (Catalog.ofDocument d).declarations[o.position]? = some shader ∧
        shader.isMixin = false ∧ shader.name = j.shader := by
  obtain ⟨variation, position⟩ := o
  rw [originsOf]
  constructor
  -- A job whose source cannot be read has no origins.
  · intro h
    split at h
    · cases h
    · next d hd =>
      obtain ⟨i, hi, heq⟩ := List.mem_map.1 h
      cases heq
      exact ⟨rfl, d, hd, Declaration.mem_positions_iff.1 hi⟩
  · rintro ⟨hvariation, d, hd, hshader⟩
    cases hvariation
    rw [hd]
    exact List.mem_map.2 ⟨position, Declaration.mem_positions_iff.2 hshader, rfl⟩

/-- An origin tells its job. -/
theorem eq_of_mem_originsOf {j j' : Job} (h : o ∈ c.originsOf source defines j)
    (h' : o ∈ c.originsOf source defines j') : j = j' := by
  obtain ⟨hvariation, d, hd, shader, hshader, -, hname⟩ := mem_originsOf_iff.1 h
  obtain ⟨hvariation', d', hd', shader', hshader', -, hname'⟩ := mem_originsOf_iff.1 h'
  obtain ⟨name, variation⟩ := j
  obtain ⟨name', variation'⟩ := j'
  cases hvariation
  cases hvariation'
  cases Except.ok.inj (hd.symm.trans hd')
  cases Option.some.inj (hshader.symm.trans hshader')
  cases hname
  cases hname'
  rfl

theorem nodup_origins {populated : List Declaration} (h : (Job.all populated).Nodup) :
    (c.origins source defines populated).Nodup := by
  rw [origins, List.nodup_flatMap]
  refine ⟨fun j _ => nodup_originsOf c source defines j, h.imp fun hne o ho ho' => ?_⟩
  exact hne (eq_of_mem_originsOf ho ho')

end Compiler

/-- Shaders have distinct names, and their parameters distinct names and distinct values. -/
structure Declaration.Distinct (ds : List Declaration) : Prop where
  names : ((ds.filter (!·.isMixin)).map (·.name)).Nodup
  parameters : ∀ d ∈ ds.filter (!·.isMixin), (d.variations.map (·.identifier)).Nodup
  values : ∀ d ∈ ds.filter (!·.isMixin), ∀ p ∈ d.variations, (p.values.map (·.value)).Nodup

instance (ds : List Declaration) : Decidable (Declaration.Distinct ds) :=
  decidable_of_iff
    (((ds.filter (!·.isMixin)).map (·.name)).Nodup ∧
      (∀ d ∈ ds.filter (!·.isMixin), (d.variations.map (·.identifier)).Nodup) ∧
      ∀ d ∈ ds.filter (!·.isMixin), ∀ p ∈ d.variations, (p.values.map (·.value)).Nodup)
    ⟨fun h => ⟨h.1, h.2.1, h.2.2⟩, fun h => ⟨h.names, h.parameters, h.values⟩⟩

theorem Job.nodup_all {ds : List Declaration} (h : Declaration.Distinct ds) :
    (Job.all ds).Nodup := by
  rw [Job.all, List.nodup_flatMap]
  -- Jobs of one shader differ in the variation, jobs of two shaders in the name.
  refine ⟨fun d hd => ?_, ?_⟩
  · exact (Variation.nodup_expand (h.parameters d hd) (h.values d hd)).map
      fun v v' hv => congrArg Job.variation hv
  · refine (List.pairwise_map.1 h.names).imp fun hne j hj hj' => ?_
    obtain ⟨v, -, rfl⟩ := List.mem_map.1 hj
    obtain ⟨v', -, hjob⟩ := List.mem_map.1 hj'
    exact hne (congrArg Job.shader hjob).symm

/-- A compilation builds its origins one behind the other, and the techniques of an origin differ in
their languages. So no two techniques of one declaration agree in language and variation just if
there are none at all or no origin comes twice; and none does where names and choices are
distinct. -/
theorem Compiler.techniques_built_once {c : Compiler (StateM σ)} {name source : String} {s : Shader}
    (h : Gives (c.compile name source) s) :
    ∃ d populated, Document.read source c.config.defines c.includes = .ok d ∧
      Declaration.populate (Catalog.ofDocument d).declarations = .ok populated ∧
      ∃ segments, s.techniques = segments.flatten ∧
        List.Forall₂ (c.Builds source c.config.defines)
          (c.origins source c.config.defines populated) segments ∧
        ((allKeys (c.origins source c.config.defines populated) segments).Nodup ↔
          c.config.targets = [] ∨ (c.origins source c.config.defines populated).Nodup) ∧
        (Declaration.Distinct populated →
          (allKeys (c.origins source c.config.defines populated) segments).Nodup) := by
  obtain ⟨d, populated, hd, hpopulated, segments, hsegments, hbuilt⟩ := builds_of_compileTo h
  have hiff := nodup_allKeys_iff hbuilt
  exact ⟨d, populated, hd, hpopulated, segments, hsegments, hbuilt, hiff,
    fun hdistinct => hiff.2 (.inr (nodup_origins (Job.nodup_all hdistinct)))⟩

/-- A compiler without anything set up: it makes techniques in the language itself, and there are no
files to include and no extension points to complete. -/
def Compiler.plain : Compiler (StateM Unit) :=
  ⟨.standard, fun _ => none, fun r => pure (Hlsl.reflector r), .none, none⟩

/-- A shader with two values to choose from has a technique for each. -/
theorem Compiler.techniques_built_once_values :
    ∃ source s, Gives (plain.compile "S" source) s ∧
      s.techniques.map (fun t => (t.language, t.variation.entries)) =
        [(.hlsl, [("B", 0)]), (.hlsl, [("B", 1)])] ∧
      ∃ d populated, Document.read source plain.config.defines plain.includes = .ok d ∧
        Declaration.populate (Catalog.ofDocument d).declarations = .ok populated ∧
        Declaration.Distinct populated ∧
        ∃ segments, s.techniques = segments.flatten ∧
          List.Forall₂ (plain.Builds source plain.config.defines)
            (plain.origins source plain.config.defines populated) segments ∧
          (allKeys (plain.origins source plain.config.defines populated) segments).Nodup := by
  have hrun : ((plain.compile "S"
      "shader T \x7b variations \x7b B = \x7b0, 1\x7d \x7d \x7d").run.run ()).1.toOption.map
        (fun s => s.techniques.map fun t => (t.language, t.variation.entries)) =
      some [(.hlsl, [("B", 0)]), (.hlsl, [("B", 1)])] := by decide +kernel
  have hdistinct : (Document.read "shader T \x7b variations \x7b B = \x7b0, 1\x7d \x7d \x7d"
      plain.config.defines plain.includes).toOption.bind (fun d =>
        (Declaration.populate (Catalog.ofDocument d).declarations).toOption.map fun populated =>
          decide (Declaration.Distinct populated)) = some true := by decide +kernel
  obtain ⟨s, hs, htechniques⟩ := Option.map_eq_some_iff.1 hrun
  have hgives := Gives.of_toOption hs
  obtain ⟨d, populated, hd, hpopulated, segments, hsegments, hbuilt, -, honce⟩ :=
    techniques_built_once hgives
  have hdecided : Declaration.Distinct populated := by
    simpa [hd, hpopulated, Except.toOption] using hdistinct
  exact ⟨_, s, hgives, htechniques, d, populated, hd, hpopulated, hdecided, segments, hsegments,
    hbuilt, honce hdecided⟩

/-- A name declared twice has two jobs, and each of them builds both declarations. -/
theorem Compiler.techniques_built_twice :
    ((plain.compile "S" "shader T \x7b\x7d shader T \x7b\x7d").run.run ()).1.toOption.map
      (fun s => s.techniques.map fun t => (t.language, t.variation.entries)) =
      some [(.hlsl, []), (.hlsl, []), (.hlsl, []), (.hlsl, [])] := by decide +kernel

end ShaderLang
