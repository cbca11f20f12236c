import ShaderLang.Text.Letters
/-!
# Stages and languages

The stages of the graphics pipeline, the languages a user can ask for and those that programs are
written in.

## Main definitions

* `Stage` — a stage of the pipeline, with its entry point
* `TargetLanguage` — a language a user can ask for
* `Language` — the language of a program
-/

namespace ShaderLang

/-- The stages of the pipeline, in their order. -/
inductive Stage
  | vertex | fragment | geometry | hull | domain | compute
  deriving DecidableEq, Inhabited

namespace Stage

/-- Every stage, in pipeline order. -/
def all : List Stage := [.vertex, .fragment, .geometry, .hull, .domain, .compute]

/-- The function that a program of the stage starts with. -/
def entryPoint : Stage → String
  | vertex => "vsmain"
  | fragment => "fsmain"
  | geometry => "gsmain"
  | hull => "hsmain"
  | domain => "dsmain"
  | compute => "csmain"

/-- The stage that starts with a function. -/
def ofEntryPoint? (name : String) : Option Stage := all.find? (·.entryPoint == name)

/-- The name of the stage in reports. -/
def name : Stage → String
  | vertex => "Vertex"
  | fragment => "Fragment"
  | geometry => "Geometry"
  | hull => "Hull"
  | domain => "Domain"
  | compute => "Compute"

/-- The position of the stage in the pipeline. -/
def rank : Stage → Nat
  | vertex => 0
  | fragment => 1
  | geometry => 2
  | hull => 3
  | domain => 4
  | compute => 5

theorem mem_all (s : Stage) : s ∈ all := by cases s <;> decide

theorem pairwise_all : all.Pairwise fun s t => s.rank < t.rank := by decide

/-- Stages taken from the pipeline are already in its order. -/
theorem filter_contains_filter (q : Stage → Bool) :
    (all.filter fun s => (all.filter q).contains s) = all.filter q := by
  refine List.filter_congr fun s _ => ?_
  rw [Bool.eq_iff_iff, List.contains_iff_mem, List.mem_filter]
  exact and_iff_right (mem_all s)

end Stage

/-- A language a user can ask for. -/
inductive TargetLanguage
  | hlsl | glsl | vksl | msl
  deriving DecidableEq, Inhabited

namespace TargetLanguage

/-- Every language, in the order in which techniques are built. -/
def all : List TargetLanguage := [.hlsl, .glsl, .vksl, .msl]

def name : TargetLanguage → String
  | hlsl => "hlsl"
  | glsl => "glsl"
  | vksl => "vksl"
  | msl => "msl"

/-- The language of a name in any case. -/
def ofName? (name : String) : Option TargetLanguage := all.find? (·.name == Text.small name)

/-- The names of the languages, in alphabetical order. -/
def names : List String := ["glsl", "hlsl", "msl", "vksl"]

end TargetLanguage

/-- The language of a program. -/
inductive Language
  | hlsl | glsl | glsl41 | vksl | mvksl
  deriving DecidableEq, Inhabited

/-- The name of a language in reports. -/
def Language.name : Language → String
  | hlsl => "hlsl"
  | glsl => "glsl"
  | glsl41 => "glsl4_1"
  | vksl => "vksl"
  | mvksl => "mvksl"

end ShaderLang
