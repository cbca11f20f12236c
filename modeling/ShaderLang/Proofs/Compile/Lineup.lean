import Mathlib.Data.List.Forall2
import ShaderLang.Proofs.Compile.Origin
/-!
# Programs line up across languages

All techniques of a declaration under a variation show the same passes in the same order, and each
of their passes has programs for the same stages, in whatever language. The stages are found once
for a pass, in what is reflected of its code. Programs in the language itself are made for the
stages as they are found; those to convert are made stage by stage along the pipeline. Both come to
the same, since stages are found in the order of the pipeline.

## Main definitions

* `PassReport.HasStages` — the stages of a pass are those that its reflection reports
* `Compiler.LinesUp` — techniques with the same passes and stages

## Main results

* `PassSet.pairwise_inOrder` — passes are drawn in ascending order
* `Dialect.Shows.stages` — the programs of a pass are for the stages that were found
* `Compiler.programs_line_up` — the techniques of a compilation line up
-/

namespace ShaderLang

variable {σ : Type}

/-! ## Passes -/

/-- Passes are drawn in ascending order of their numbers, which are distinct. -/
theorem PassSet.pairwise_inOrder {doc : Document} {ds : List Declaration} {d : Declaration}
    {set : PassSet} (h : PassSet.ofDeclaration doc ds d = .ok set) :
    set.inOrder.Pairwise (·.index < ·.index) := by
  obtain ⟨is, -, rfl⟩ := Declaration.ofDeclaration_eq_ok_iff.1 h
  have hsound := sound_ofBodies doc ((Declaration.atPositions ds is ++ [d]).map (·.body))
  rw [ofBodies] at hsound
  generalize ((Declaration.atPositions ds is ++ [d]).map (·.body)).foldl (merge doc) empty = set
    at hsound
  -- The numbers are distinct before they are sorted, and so afterwards.
  have hnodup : (set.inOrder.map (·.index)).Nodup :=
    ((List.mergeSort_perm _ _).map _).nodup_iff.2 hsound.nodup
  have hsorted : set.inOrder.Pairwise fun p q => p.index ≤ q.index := by
    refine (List.pairwise_mergeSort ?_ ?_ set.passes).imp of_decide_eq_true
    · simp only [decide_eq_true_eq]
      exact fun p q r => Nat.le_trans
    · simp only [Bool.or_eq_true, decide_eq_true_eq]
      exact fun p q => Nat.le_total p.index q.index
  exact hsorted.imp₂ (fun _ _ => Nat.lt_of_le_of_ne) (List.pairwise_map.1 hnodup)

/-! ## Stages -/

/-- The stages of a pass stand in the order of the pipeline, each once. Blank code has none, and is
not reflected. Other code has those whose functions its reflection reports. -/
structure PassReport.HasStages (c : Converter (StateM σ)) (report : PassReport) : Prop where
  ascending : report.stages.Pairwise (·.rank < ·.rank)
  blank : report.pass.code.toList.all Text.isBlank = true →
    report.stages = [] ∧ report.reflections = []
  reflected : report.pass.code.toList.all Text.isBlank = false →
    ∃ answer next, Gives (convert c report.pass.code .vertex .glsl45 true true 0) (answer, next) ∧
      report.reflections = [answer.reflection] ∧
      ∀ stage, stage ∈ report.stages ↔ stage.entryPoint ∈ answer.reflection.functions

section

variable {c : Converter (StateM σ)} {p : PassData} {report : PassReport} {d : Dialect} {pass : Pass}

theorem Stage.mem_among_iff {functions : List String} {stage : Stage} :
    stage ∈ among functions ↔ stage.entryPoint ∈ functions := by
  simp [among, mem_all]

theorem Gives.of_detectStages {hlsl : String} {r : List Stage × Reflection}
    (h : Gives (detectStages c hlsl) r) :
    ∃ answer next, Gives (convert c hlsl .vertex .glsl45 true true 0) (answer, next) ∧
      r = (Stage.among answer.reflection.functions, answer.reflection) := by
  obtain ⟨⟨answer, next⟩, hanswer, h⟩ := h.bind
  refine ⟨answer, next, hanswer, ?_⟩
  dsimp only at h
  split at h
  · exact absurd h (not_throw _)
  · exact h.of_pure.symm

/-- Stages that are reported have been taken from the pipeline. -/
theorem PassData.Reported.exists_filter (h : p.Reported c report) :
    ∃ q, report.stages = Stage.all.filter q := by
  cases h with
  | blank => exact ⟨fun _ => false, by simp⟩
  | reflected _ hfound =>
    obtain ⟨answer, next, -, heq⟩ := hfound.of_detectStages
    cases heq
    exact ⟨fun s => answer.reflection.functions.contains s.entryPoint, rfl⟩

theorem PassData.Reported.pass_eq (h : p.Reported c report) : report.pass = p := by
  cases h <;> rfl

theorem PassData.Reported.hasStages (h : p.Reported c report) : report.HasStages c where
  ascending := by
    obtain ⟨q, hq⟩ := h.exists_filter
    rw [hq]
    exact Stage.pairwise_all.filter q
  blank hblank := by
    cases h with
    | blank => exact ⟨rfl, rfl⟩
    | reflected hcode => cases hblank.symm.trans hcode
  reflected hcode := by
    cases h with
    | blank hblank => cases hblank.symm.trans hcode
    | reflected _ hfound =>
      obtain ⟨answer, next, hanswer, heq⟩ := hfound.of_detectStages
      cases heq
      exact ⟨answer, next, hanswer, rfl, fun stage => Stage.mem_among_iff⟩

theorem Gives.map_fst_convertFrom {hlsl : String} {target : Target} {stages : List Stage}
    {start : Nat} {sources : List (Stage × String)}
    (h : Gives (convertFrom c hlsl target stages start) sources) : sources.map (·.1) = stages := by
  induction stages generalizing start sources with
  | nil =>
    cases of_pure h
    rfl
  | cons stage stages ih =>
    obtain ⟨⟨answer, next⟩, -, h⟩ := h.bind
    obtain ⟨rest, hrest, h⟩ := h.bind
    cases of_pure h
    rw [List.map_cons, ih hrest]

/-- Programs are made for the stages that were found, cleaned or converted. -/
theorem Dialect.Shows.stages (h : d.Shows c report pass) (hreport : p.Reported c report) :
    pass.programs.map (·.stage) = report.stages := by
  obtain ⟨q, hq⟩ := hreport.exists_filter
  have hprograms := h.programs
  rw [Dialect.programs] at hprograms
  split at hprograms
  -- In the language itself the stages are taken as they were found.
  · rw [← hprograms.of_pure, List.map_map]
    exact List.map_id _
  -- For the others they are looked up along the pipeline, where they come in the same order.
  · obtain ⟨sources, hsources, hprograms⟩ := hprograms.bind
    have hstages := hsources.map_fst_convertFrom
    rw [hq, Stage.filter_contains_filter] at hstages
    rw [← hprograms.of_pure, List.map_map, hq, ← hstages]
    rfl

end

/-! ## Techniques -/

/-- Techniques that line up: all show the same passes of the shader of an origin, at least one and
in ascending order, with programs for the same stages. -/
def Compiler.LinesUp (c : Compiler (StateM σ)) (source : String) (defines : Table String)
    (o : Origin) (techniques : List Technique) : Prop :=
  ∃ d shader set, ∃ reports : List PassReport,
    Document.read source (o.variation.defines defines) c.includes = .ok d ∧
    (Catalog.ofDocument d).declarations[o.position]? = some shader ∧
    PassSet.ofDeclaration d (Catalog.ofDocument d).declarations shader = .ok set ∧
    set.inOrder ≠ [] ∧ set.inOrder.Pairwise (·.index < ·.index) ∧
    reports.map (·.pass) = set.inOrder ∧
    (∀ report ∈ reports, report.HasStages c.converter) ∧
    ∀ t ∈ techniques, t.variation = o.variation ∧
      t.passes.map (·.toPassStates) = reports.map (·.pass.toPassStates) ∧
      t.passes.map (fun p => p.programs.map (·.stage)) = reports.map (·.stages)

namespace Compiler

variable {c : Compiler (StateM σ)} {source : String} {defines : Table String} {o : Origin}
  {techniques : List Technique}

theorem Builds.linesUp (h : c.Builds source defines o techniques) :
    c.LinesUp source defines o techniques := by
  obtain ⟨d, shader, set, reflections, hd, hshader, hset, hbuilt⟩ := h
  have hne := PassSet.passes_ne_nil hset
  obtain ⟨reports, hreports, -, hshows⟩ := hbuilt.of_buildTechniques hne
  have hpasses := map_eq_map_of_forall₂ (f := id) hreports fun p report h => h.pass_eq
  rw [List.map_id] at hpasses
  have hreported := forall_mem_of_forall₂ hreports fun p report h => h.pass_eq ▸ h
  refine ⟨d, shader, set, reports, hd, hshader, hset, PassSet.inOrder_ne_nil hne,
    PassSet.pairwise_inOrder hset, hpasses, fun report h => (hreported report h).hasStages, ?_⟩
  refine forall_mem_of_forall₂ hshows fun l t ht => ⟨ht.variation, ?_, ?_⟩
  · exact map_eq_map_of_forall₂ ht.passes fun report pass h => h.states
  · have hall := (List.forall₂_and_left _ _).2 ⟨hreported, ht.passes⟩
    exact map_eq_map_of_forall₂ hall fun report pass h => h.2.stages h.1

/-- A steady converter leaves no choice in what is built of an origin. -/
theorem Builds.unique (hc : c.converter.Steady) {others : List Technique}
    (h : c.Builds source defines o techniques) (h' : c.Builds source defines o others) :
    techniques = others := by
  obtain ⟨d, shader, set, reflections, reflections', hset, hbuilt, hbuilt'⟩ := h.of_same h'
  obtain ⟨reports, -, hshows, hshows'⟩ :=
    hc.exists_reports (PassSet.passes_ne_nil hset) hbuilt hbuilt'
  exact List.right_unique_forall₂' (hc.techniques_unique _ _ _ _) hshows hshows'

/-- The techniques of a compilation line up, origin by origin: those of a declaration under a
variation show the same passes in ascending order, at least one, with programs for the same stages
in every language. These are the stages whose functions were reflected of the code of the pass, in
the order of the pipeline; blank code has none. With a steady converter, this is so of all
techniques of an origin even if it is built more than once. -/
theorem programs_line_up {depth : Nat} {name : String} {s : Shader}
    (h : Gives (c.compileTo depth name source defines) s) :
    ∃ d populated, Document.read source defines c.includes = .ok d ∧
      Declaration.populate (Catalog.ofDocument d).declarations = .ok populated ∧
      ∃ segments, s.techniques = segments.flatten ∧
        List.Forall₂ (c.LinesUp source defines) (c.origins source defines populated) segments ∧
        (c.converter.Steady → ∀ x ∈ (c.origins source defines populated).zip segments,
          ∀ y ∈ (c.origins source defines populated).zip segments, x.1 = y.1 → x.2 = y.2) := by
  obtain ⟨d, populated, hd, hpopulated, segments, hsegments, hbuilt⟩ := builds_of_compileTo h
  refine ⟨d, populated, hd, hpopulated, segments, hsegments, hbuilt.imp fun o ts => Builds.linesUp,
    fun hc => ?_⟩
  rintro ⟨o, techniques⟩ hx ⟨o', others⟩ hy rfl
  exact (List.forall₂_zip hbuilt hx).unique hc (List.forall₂_zip hbuilt hy)

end Compiler

/-- A converter that leaves every program as it is, and finds two functions in it. -/
def Converter.echoing : Converter (StateM Unit) := fun r =>
  pure (.ok ⟨r.source, { Reflection.empty with functions := ["fsmain", "vsmain"] }, .empty⟩)

/-- A compiler with nothing set up but such a converter and the languages. -/
def Compiler.echoing (languages : List TargetLanguage) : Compiler (StateM Unit) :=
  ⟨{ Config.standard with languages }, fun _ => none, .echoing, .none, none⟩

/-- A blank pass and one that is not, each in two languages. The functions are found out of
order. -/
theorem Compiler.programs_line_up_converted :
    ∃ source s, Gives ((echoing [.hlsl, .glsl]).compileTo nestingLimit "S" source .empty) s ∧
      s.techniques.map (fun t => (t.language, t.passes.map fun p => p.programs.map (·.stage))) =
        [(.hlsl, [[]]), (.glsl41, [[]]), (.hlsl, [[.vertex, .fragment]]),
          (.glsl41, [[.vertex, .fragment]])] ∧
      (echoing [.hlsl, .glsl]).converter.Steady ∧
      ∃ d populated,
        Document.read source .empty (echoing [.hlsl, .glsl]).includes = .ok d ∧
        Declaration.populate (Catalog.ofDocument d).declarations = .ok populated ∧
        ∃ segments, s.techniques = segments.flatten ∧
          List.Forall₂ ((echoing [.hlsl, .glsl]).LinesUp source .empty)
            ((echoing [.hlsl, .glsl]).origins source .empty populated) segments ∧
          ∀ x ∈ ((echoing [.hlsl, .glsl]).origins source .empty populated).zip segments,
            ∀ y ∈ ((echoing [.hlsl, .glsl]).origins source .empty populated).zip segments,
              x.1 = y.1 → x.2 = y.2 := by
  have hrun : (((echoing [.hlsl, .glsl]).compileTo nestingLimit "S"
      "shader A \x7b \x7d shader B \x7b code \x7bv\x7d \x7d" .empty).run.run
        ()).1.toOption.map
          (fun s => s.techniques.map fun t =>
            (t.language, t.passes.map fun p => p.programs.map (·.stage))) =
      some [(.hlsl, [[]]), (.glsl41, [[]]), (.hlsl, [[.vertex, .fragment]]),
        (.glsl41, [[.vertex, .fragment]])] := by decide +kernel
  obtain ⟨s, hs, htechniques⟩ := Option.map_eq_some_iff.1 hrun
  have hgives := Gives.of_toOption hs
  have hsteady : (echoing [.hlsl, .glsl]).converter.Steady := Converter.steady_of_function _
  obtain ⟨d, populated, hd, hpopulated, segments, hsegments, halike, hsame⟩ :=
    programs_line_up hgives
  exact ⟨_, s, hgives, htechniques, hsteady, d, populated, hd, hpopulated, segments, hsegments,
    halike, hsame hsteady⟩

end ShaderLang
