import ShaderLang.Proofs.Compile.Lineup
import ShaderLang.Proofs.Hlsl.Balance
import ShaderLang.Proofs.Hlsl.Header
/-!
# The stages of a program

The stages of a program in the language itself are told by its functions. They are asked for in the
first place as if the program had a vertex stage; a program without one is answered with an error
that has the reflection in it, and the error is then passed over. So it is an error only if the
program cannot be reflected, or has no stage at all.

## Main definitions

* `Hlsl.detect` — the stages of a program and its reflection

## Main results

* `Hlsl.detect_eq_ok_iff` — when and which stages are found
* `Hlsl.detect_exact` — the stages are those of the functions, and else it is a converter's error
-/

namespace ShaderLang

/-! ## Converters that do nothing but answer -/

section

variable (c : Converter Id) (hlsl : String)

theorem run_convert_id (stage : Stage) (target : Target) (optional reflectOnly : Bool)
    (start : Nat) :
    (convert c hlsl stage target optional reflectOnly start).run =
      afterAnswer stage optional start
        (c (Request.ofProgram hlsl stage target start reflectOnly)) := rfl

theorem run_detectStages_id :
    (detectStages c hlsl).run =
      (convert c hlsl .vertex .glsl45 true true 0).run.bind fun (result, _) =>
        if (Stage.among result.reflection.functions).isEmpty && !result.log.isEmpty then
          .error (.crossCompile result.log.text)
        else .ok (Stage.among result.reflection.functions, result.reflection) := by
  rw [detectStages, ExceptT.run_bind]
  rcases (convert c hlsl .vertex .glsl45 true true 0).run with e | ⟨result, next⟩
  · rfl
  · change ExceptT.run (if _ then _ else _) = if _ then _ else _
    split <;> rfl

end

namespace Hlsl

/-- The stages of a program and its reflection, by the converter that only reflects. -/
def detect (hlsl : String) : Except CompileError (List Stage × Reflection) :=
  (detectStages (m := Id) reflector hlsl).run

/-- The log of a program that cannot be reflected. -/
def unbalanced : CompileLog := ⟨[.ofError "error : unbalanced braces"], none⟩

/-- The log of a program without a vertex stage. -/
def withoutVertex : CompileLog :=
  ⟨[.ofError ("error : entry point '" ++ Stage.vertex.entryPoint ++ "' not found")], none⟩

variable {hlsl : String} {stages : List Stage} {r : Reflection}

/-- The answer for the vertex stage of a program, of which only the reflection is asked for. -/
theorem reflector_vertex (hlsl : String) :
    reflector (Request.ofProgram hlsl .vertex .glsl45 0 true) =
      match reflect? hlsl 0 with
      | none => .error unbalanced
      | some r =>
        if r.hasFunction Stage.vertex.entryPoint then .ok ⟨"", r, .empty⟩
        else .error { withoutVertex with reflection? := some r } := by
  simp only [reflector, Request.ofProgram, reflect?_defineLine]
  cases reflect? hlsl 0 <;> rfl

/-- A program without a vertex stage is converted like any other, only that there is a log. -/
theorem convert_vertex (hlsl : String) :
    (convert (m := Id) reflector hlsl .vertex .glsl45 true true 0).run =
      match reflect? hlsl 0 with
      | none => .error (.crossCompile unbalanced.text)
      | some r =>
        if r.hasFunction Stage.vertex.entryPoint then .ok (⟨"", r, .empty⟩, r.nextBinding 0)
        else .ok (⟨"", r, withoutVertex⟩, 0) := by
  rw [run_convert_id, reflector_vertex]
  cases reflect? hlsl 0 with
  | none => rfl
  | some r =>
    dsimp only
    split
    · rfl
    · next hvertex => simp [afterAnswer, afterFailure, hvertex, withoutVertex]

theorem mem_among_vertex (h : r.hasFunction Stage.vertex.entryPoint = true) :
    .vertex ∈ Stage.among r.functions :=
  Stage.mem_among_iff.2 (of_decide_eq_true h)

/-- The stages of a program that is reflected are those of its functions. -/
theorem detect_eq (hlsl : String) :
    detect hlsl =
      match reflect? hlsl 0 with
      | none => .error (.crossCompile unbalanced.text)
      | some r =>
        if Stage.among r.functions = [] then .error (.crossCompile withoutVertex.text)
        else .ok (Stage.among r.functions, r) := by
  rw [detect, run_detectStages_id, convert_vertex]
  cases reflect? hlsl 0 with
  | none => rfl
  | some r =>
    dsimp only
    split
    · next hvertex =>
      have hne := List.ne_nil_of_mem (mem_among_vertex hvertex)
      simp [Except.bind, hne]
    · simp [Except.bind, withoutVertex, CompileLog.isEmpty]

theorem detect_eq_ok_iff :
    detect hlsl = .ok (stages, r) ↔
      reflect? hlsl 0 = some r ∧ stages = Stage.among r.functions ∧ stages ≠ [] := by
  rw [detect_eq]
  cases reflect? hlsl 0 with
  | none => simp
  | some r' =>
    dsimp only
    split <;> grind

/-- The stages of a program are found just if its braces balance, without comments and directive
lines, and one of its functions is where a stage starts. They are the stages that start with some
function, in the order of the pipeline, and come with the reflection of the program, behind the line
that defines the target. Else it is an error of the converter. -/
theorem detect_exact (hlsl : String) :
    ((∃ found, detect hlsl = .ok found) ↔
      nest? 0 (uncommented hlsl.toList) = some 0 ∧
        ∃ r, reflect? hlsl 0 = some r ∧ ∃ s : Stage, s.entryPoint ∈ r.functions) ∧
    (∀ stages r, detect hlsl = .ok (stages, r) →
      stages ≠ [] ∧ stages.Pairwise (·.rank < ·.rank) ∧
        (∀ s, s ∈ stages ↔ s.entryPoint ∈ r.functions) ∧
        reflect? ("#define OPENGL 1\n" ++ hlsl) 0 = some r ∧ reflect? hlsl 0 = some r) ∧
    ∀ e, detect hlsl = .error e → ∃ log, e = .crossCompile log := by
  refine ⟨⟨?_, ?_⟩, fun stages r h => ?_, fun e h => ?_⟩
  · rintro ⟨⟨stages, r⟩, h⟩
    obtain ⟨hr, rfl, hne⟩ := detect_eq_ok_iff.1 h
    obtain ⟨s, hs⟩ := List.exists_mem_of_ne_nil _ hne
    exact ⟨isSome_reflect?_iff.1 (Option.isSome_iff_exists.2 ⟨r, hr⟩), r, hr, s,
      Stage.mem_among_iff.1 hs⟩
  · rintro ⟨-, r, hr, s, hs⟩
    exact ⟨(Stage.among r.functions, r),
      detect_eq_ok_iff.2 ⟨hr, rfl, List.ne_nil_of_mem (Stage.mem_among_iff.2 hs)⟩⟩
  -- The line that defines the target is not seen by any pattern.
  · obtain ⟨hr, rfl, hne⟩ := detect_eq_ok_iff.1 h
    refine ⟨hne, Stage.pairwise_all.filter _, fun s => Stage.mem_among_iff, ?_, hr⟩
    exact (reflect?_defineLine .glsl45 hlsl 0).trans hr
  · rw [detect_eq] at h
    split at h
    · cases h
      exact ⟨_, rfl⟩
    · split at h
      · cases h
        exact ⟨_, rfl⟩
      · cases h

end Hlsl
end ShaderLang
