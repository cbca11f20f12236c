import ShaderLang.CompileError
import ShaderLang.Shader
/-!
# Verification

Programs shown to a graphics backend before they are shipped. All rejections are reported together.

## Main definitions

* `Verifier` — says why it rejects a program
* `rejections` — the programs that a verifier rejects, with its reasons
* `verify` — fails if there are any

## Main results

* `verify_eq_ok` — exactly when verification succeeds
-/

namespace ShaderLang

/-- A backend: why it rejects a program, if it does. -/
abbrev Verifier := GpuProgram → Option String

/-- The rejected programs with the reasons, in order of techniques, passes and programs. -/
def rejections (v : Verifier) (techniques : List Technique) : List (GpuProgram × String) :=
  (techniques.flatMap Technique.programs).filterMap fun p => (v p).map (p, ·)

/-- The line on a rejected program. -/
def rejectionLine (r : GpuProgram × String) : String :=
  r.1.stage.name ++ " program: " ++ r.2 ++ "\n"

/-- Succeeds if no program is rejected. -/
def verify (v : Verifier) (techniques : List Technique) : Except CompileError Unit :=
  match rejections v techniques with
  | [] => .ok ()
  | rs => .error (.gpuProgram (String.join (rs.map rejectionLine)))

theorem rejections_eq_nil {v : Verifier} {techniques : List Technique} :
    rejections v techniques = [] ↔ ∀ t ∈ techniques, ∀ p ∈ t.programs, v p = none := by
  simp only [rejections, List.filterMap_eq_nil_iff, List.mem_flatMap, Option.map_eq_none_iff]
  exact ⟨fun h t ht p hp => h p ⟨t, ht, hp⟩, fun h p ⟨t, ht, hp⟩ => h t ht p hp⟩

theorem verify_eq_ok {v : Verifier} {techniques : List Technique} :
    verify v techniques = .ok () ↔ ∀ t ∈ techniques, ∀ p ∈ t.programs, v p = none := by
  rw [← rejections_eq_nil, verify]
  cases rejections v techniques <;> simp

end ShaderLang
