import ShaderLang.Proofs.Compile.Steps
/-!
# What techniques show

The techniques of a shader are built row by row, a row for each pass and in it a place for each
language. Here they are seen technique by technique. Every pass is reported once, with the stages
that are found in it, and each technique shows what was reported in the dialect of its language.
A converter that answers by the request alone leaves no choice in any of this.

## Main definitions

* `PassReport`, `PassData.Reported` — a pass with its stages, and how these are found
* `Dialect.Shows`, `Technique.Shows` — a pass and a technique as they come of reports
* `Converter.Steady` — a converter whose answers do not hang on its state

## Main results

* `Gives.of_buildTechniques` — techniques show the reports of the same passes
* `Converter.Steady.reports_unique`, `Converter.Steady.techniques_unique` — a steady converter has
  one way to report a pass and one way to show it
* `Converter.Steady.exists_reports` — and reports the same for any languages
-/

namespace ShaderLang

variable {σ α β : Type}

/-- What holds of every second member of related lists. -/
theorem forall_mem_of_forall₂ {R : α → β → Prop} {P : β → Prop} {l : List α} {l' : List β}
    (h : List.Forall₂ R l l') (hR : ∀ a b, R a b → P b) : ∀ b ∈ l', P b := by
  induction h with
  | nil => exact List.forall_mem_nil _
  | cons hab _ ih => exact List.forall_mem_cons.2 ⟨hR _ _ hab, ih⟩

/-! ## Reports -/

/-- A pass with the stages that were found in it and what was reflected for them. -/
structure PassReport where
  pass : PassData
  stages : List Stage
  reflections : List Reflection

/-- Blank code has no stages and is not reflected. Other code is reflected once. -/
inductive PassData.Reported (c : Converter (StateM σ)) (p : PassData) : PassReport → Prop
  | blank (h : p.code.toList.all Text.isBlank = true) : Reported c p ⟨p, [], []⟩
  | reflected {stages : List Stage} {reflection : Reflection}
      (h : p.code.toList.all Text.isBlank = false)
      (hfound : Gives (detectStages c p.code) (stages, reflection)) :
      Reported c p ⟨p, stages, [reflection]⟩

/-- A pass that is what was reported, with the programs of a dialect. -/
structure Dialect.Shows (d : Dialect) (c : Converter (StateM σ)) (report : PassReport)
    (pass : Pass) : Prop where
  states : pass.toPassStates = report.pass.toPassStates
  programs : Gives (d.programs c report.pass.code report.stages) pass.programs

/-- A technique of a shader that shows what was reported, in the dialect of a language. -/
structure Technique.Shows (c : Converter (StateM σ)) (shader : Declaration)
    (featureSet : Option String) (v : Variation) (reports : List PassReport) (l : TargetLanguage)
    (t : Technique) : Prop where
  language : t.language = (l.dialect featureSet).language
  tags : t.tags = shader.tags
  variation : t.variation = v
  passes : List.Forall₂ ((l.dialect featureSet).Shows c) reports t.passes

theorem Technique.Shows.passes_ne_nil {c : Converter (StateM σ)} {shader : Declaration}
    {featureSet : Option String} {v : Variation} {reports : List PassReport} {l : TargetLanguage}
    {t : Technique} (h : Shows c shader featureSet v reports l t) (hne : reports ≠ []) :
    t.passes ≠ [] := by
  rintro hnil
  have hpasses := h.passes
  rw [hnil, List.forall₂_nil_right_iff] at hpasses
  exact hne hpasses

section

variable {c : Converter (StateM σ)} {dialects : List Dialect} {stages : List Stage} {p : PassData}

theorem Gives.of_inDialects {reflections : List Reflection} {row : List Pass}
    (h : Gives (inDialects c p stages dialects) row) :
    List.Forall₂ (fun d pass => d.Shows c ⟨p, stages, reflections⟩ pass) dialects row := by
  induction dialects generalizing row with
  | nil =>
    cases of_pure h
    exact .nil
  | cons d dialects ih =>
    obtain ⟨programs, hprograms, h⟩ := h.bind
    obtain ⟨others, hothers, h⟩ := h.bind
    cases of_pure h
    exact .cons ⟨rfl, hprograms⟩ (ih hothers)

theorem Gives.of_buildPass {r : List Pass × List Reflection}
    (h : Gives (buildPass c dialects p) r) :
    ∃ report, p.Reported c report ∧ report.reflections = r.2 ∧
      List.Forall₂ (fun d pass => d.Shows c report pass) dialects r.1 := by
  rw [buildPass] at h
  split at h
  · next hblank =>
    obtain ⟨row, hrow, h⟩ := h.bind
    cases of_pure h
    exact ⟨⟨p, [], []⟩, .blank hblank, rfl, of_inDialects hrow⟩
  · next hcode =>
    obtain ⟨⟨stages, reflection⟩, hfound, h⟩ := h.bind
    obtain ⟨row, hrow, h⟩ := h.bind
    cases of_pure h
    exact ⟨⟨p, stages, [reflection]⟩, .reflected (Bool.eq_false_iff.2 hcode) hfound, rfl,
      of_inDialects hrow⟩

theorem Gives.of_buildPasses {ps : List PassData} {r : List (List Pass) × List Reflection}
    (h : Gives (buildPasses c dialects ps) r) :
    ∃ reports, List.Forall₂ (PassData.Reported c) ps reports ∧
      reports.flatMap (·.reflections) = r.2 ∧
      List.Forall₂ (fun report row => List.Forall₂ (fun d pass => d.Shows c report pass) dialects
        row) reports r.1 := by
  induction ps generalizing r with
  | nil =>
    cases of_pure h
    exact ⟨[], .nil, rfl, .nil⟩
  | cons p ps ih =>
    obtain ⟨⟨row, reflections⟩, hrow, h⟩ := h.bind
    obtain ⟨⟨rows, others⟩, hrows, h⟩ := h.bind
    cases of_pure h
    obtain ⟨report, hreport, rfl, hshown⟩ := hrow.of_buildPass
    obtain ⟨reports, hreports, rfl, hall⟩ := ih hrows
    exact ⟨report :: reports, .cons hreport hreports, rfl, .cons hshown hall⟩

/-- Of rows with a place for each dialect, those in one place. -/
theorem PassReport.forall₂_filterMap {reports : List PassReport} {rows : List (List Pass)}
    (h : List.Forall₂ (fun report row => List.Forall₂ (fun d pass => d.Shows c report pass) dialects
      row) reports rows) {i : Nat} {d : Dialect} (hd : dialects[i]? = some d) :
    List.Forall₂ (d.Shows c) reports (rows.filterMap (·[i]?)) := by
  induction h with
  | nil => exact .nil
  | cons hrow _ ih =>
    -- A row has a pass for each dialect, so that none is missing in this place.
    obtain ⟨hi, rfl⟩ := List.getElem?_eq_some_iff.1 hd
    have hi' := hrow.length_eq ▸ hi
    simp only [List.filterMap_cons, List.getElem?_eq_getElem hi']
    exact .cons (hrow.get hi hi') ih

theorem PassSet.inOrder_ne_nil {set : PassSet} (h : set.passes ≠ []) : set.inOrder ≠ [] := by
  rwa [inOrder, ← List.length_pos_iff, List.length_mergeSort, List.length_pos_iff]

/-- The techniques of a shader show the same reports, in one language each. -/
theorem Gives.of_buildTechniques {targets : List TargetLanguage} {shader : Declaration}
    {set : PassSet} {v : Variation} {r : List Technique × List Reflection}
    (h : Gives (buildTechniques c targets shader set v) r) (hset : set.passes ≠ []) :
    ∃ reports, List.Forall₂ (PassData.Reported c) set.inOrder reports ∧
      reports.flatMap (·.reflections) = r.2 ∧
      List.Forall₂ (Technique.Shows c shader set.featureSet v reports) targets r.1 := by
  obtain ⟨⟨rows, reflections⟩, hrows, h⟩ := h.bind
  cases of_pure h
  obtain ⟨reports, hreports, hreflections, hall⟩ := hrows.of_buildPasses
  have hne : reports ≠ [] := by
    rintro rfl
    exact PassSet.inOrder_ne_nil hset (List.forall₂_nil_right_iff.1 hreports)
  -- The technique of a language is made of its place in all rows.
  have hshows : List.Forall₂ (Technique.Shows c shader set.featureSet v reports) targets
      ((targets.map (·.dialect set.featureSet)).mapIdx fun i d =>
        ⟨d.language, shader.tags, v, rows.filterMap (·[i]?)⟩) := by
    refine List.forall₂_iff_get.2 ⟨by simp, fun i hi hi' => ?_⟩
    simp only [List.get_eq_getElem, List.getElem_mapIdx, List.getElem_map]
    exact ⟨rfl, rfl, rfl, PassReport.forall₂_filterMap hall (by simp [hi])⟩
  refine ⟨reports, hreports, hreflections, ?_⟩
  -- There are reports, so that no technique is without passes.
  rw [List.filter_eq_self.2 (forall_mem_of_forall₂ hshows fun l t ht => ?_)]
  · exact hshows
  · simpa using ht.passes_ne_nil hne

end

/-! ## Steady converters -/

/-- What is answered hangs on the request alone, whatever state is kept. -/
def Converter.Steady (c : Converter (StateM σ)) : Prop :=
  ∀ r s s', ((c r).run s).1 = ((c r).run s').1

/-- A function from requests to answers is a steady converter. -/
theorem Converter.steady_of_function (f : Request → Except CompileLog Converted) :
    Steady (fun r => pure (f r) : Converter (StateM σ)) := fun _ _ _ => rfl

namespace Converter.Steady

variable {c : Converter (StateM σ)}

theorem givesAlike_convert (hc : c.Steady) (hlsl : String) (stage : Stage) (target : Target)
    (optional reflectOnly : Bool) (start : Nat) :
    GivesAlike Eq (convert c hlsl stage target optional reflectOnly start)
      (convert c hlsl stage target optional reflectOnly start) := by
  rintro a a' ⟨s, stop, h⟩ ⟨s', stop', h'⟩
  have hanswer := congrArg (afterAnswer stage optional start)
    (hc (.ofProgram hlsl stage target start reflectOnly) s s')
  exact Except.ok.inj (((congrArg Prod.fst h).symm.trans hanswer).trans (congrArg Prod.fst h'))

theorem givesAlike_detectStages (hc : c.Steady) (hlsl : String) :
    GivesAlike Eq (detectStages c hlsl) (detectStages c hlsl) := by
  refine .bind (hc.givesAlike_convert _ _ _ _ _ _) ?_
  rintro ⟨answer, next⟩ _ rfl
  dsimp only
  split
  · exact .throw _ _
  · exact .pure rfl

theorem givesAlike_convertFrom (hc : c.Steady) (hlsl : String) (target : Target)
    (stages : List Stage) (start : Nat) :
    GivesAlike Eq (convertFrom c hlsl target stages start)
      (convertFrom c hlsl target stages start) := by
  induction stages generalizing start with
  | nil => exact .pure rfl
  | cons stage stages ih =>
    refine .bind (hc.givesAlike_convert _ _ _ _ _ _) ?_
    rintro ⟨answer, next⟩ _ rfl
    exact .bind (ih next) fun rest _ hrest => .pure (congrArg _ hrest)

theorem givesAlike_programs (hc : c.Steady) (d : Dialect) (code : String) (stages : List Stage) :
    GivesAlike Eq (d.programs c code stages) (d.programs c code stages) := by
  rw [Dialect.programs]
  split
  · exact .pure rfl
  · exact .bind (hc.givesAlike_convertFrom _ _ _ _) fun _ _ h => .pure (congrArg _ h)

theorem reports_unique (hc : c.Steady) : Relator.RightUnique (PassData.Reported c) := by
  -- Whether code is blank is seen from the code, and what is reflected from the answer.
  rintro p report report' (hblank | ⟨hcode, hfound⟩) (hblank' | ⟨hcode', hfound'⟩)
  · rfl
  · simp [hblank] at hcode'
  · simp [hcode] at hblank'
  · cases hc.givesAlike_detectStages _ _ _ hfound hfound'
    rfl

theorem passes_unique (hc : c.Steady) (d : Dialect) : Relator.RightUnique (d.Shows c) := by
  rintro report ⟨states, programs⟩ ⟨states', programs'⟩ ⟨hstates, hgives⟩ ⟨hstates', hgives'⟩
  cases hstates.trans hstates'.symm
  cases hc.givesAlike_programs _ _ _ _ _ hgives hgives'
  rfl

theorem techniques_unique (hc : c.Steady) (shader : Declaration) (featureSet : Option String)
    (v : Variation) (reports : List PassReport) :
    Relator.RightUnique (Technique.Shows c shader featureSet v reports) := by
  rintro l ⟨language, tags, variation, passes⟩ ⟨language', tags', variation', passes'⟩ h h'
  cases h.language.trans h'.language.symm
  cases h.tags.trans h'.tags.symm
  cases h.variation.trans h'.variation.symm
  cases List.right_unique_forall₂' (hc.passes_unique _) h.passes h'.passes
  rfl

/-- Techniques that are built of the same passes show the same reports, whatever languages they are
built for. -/
theorem exists_reports (hc : c.Steady) {targets targets' : List TargetLanguage}
    {shader : Declaration} {set : PassSet} {v : Variation} {r r' : List Technique × List Reflection}
    (hset : set.passes ≠ []) (h : Gives (buildTechniques c targets shader set v) r)
    (h' : Gives (buildTechniques c targets' shader set v) r') :
    ∃ reports, r.2 = r'.2 ∧
      List.Forall₂ (Technique.Shows c shader set.featureSet v reports) targets r.1 ∧
      List.Forall₂ (Technique.Shows c shader set.featureSet v reports) targets' r'.1 := by
  obtain ⟨reports, hreports, hreflections, hshows⟩ := h.of_buildTechniques hset
  obtain ⟨reports', hreports', hreflections', hshows'⟩ := h'.of_buildTechniques hset
  cases List.right_unique_forall₂' hc.reports_unique hreports hreports'
  exact ⟨reports, hreflections.symm.trans hreflections', hshows, hshows'⟩

end Converter.Steady
end ShaderLang
