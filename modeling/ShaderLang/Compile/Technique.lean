import ShaderLang.Compile.Config
import ShaderLang.Hlsl.Clean
import ShaderLang.Render.Pass
/-!
# Building techniques

The passes of one shader under one variation, compiled for each language that is asked for. A pass
is reflected once; each language then gets a program for each stage that was found.

## Main definitions

* `Dialect` — what the techniques for a language are written in, and how they get there
* `PassSet.ofDeclaration` — the passes of a shader with all it inherits
* `buildPass` — one pass, in every dialect
* `buildTechniques` — the techniques of a shader, and what was reflected
-/

namespace ShaderLang

/-- What the programs of a technique are written in. Those in the language itself are only cleaned,
all others are converted. -/
structure Dialect where
  language : Language
  target? : Option Target
  deriving DecidableEq, Inhabited

/-- The dialect for a language. Of the language with two versions, a shader of the high-end feature
set takes the newer one and every other shader the older one. -/
def TargetLanguage.dialect (featureSet : Option String) : TargetLanguage → Dialect
  | .hlsl => ⟨.hlsl, none⟩
  | .glsl => if featureSet = some "HighEnd" then ⟨.glsl, some .glsl45⟩ else ⟨.glsl41, some .glsl41⟩
  | .vksl => ⟨.vksl, some .vksl45⟩
  | .msl => ⟨.mvksl, some .mvksl⟩

/-- The passes of a shader: the bodies of the mixins it inherits from are merged first, its own
last. -/
def PassSet.ofDeclaration (d : Document) (ds : List Declaration) (shader : Declaration) :
    Except CompileError PassSet :=
  match Declaration.inherit ds (fun set mixin => merge d set mixin.body) .empty shader with
  | .error name => .error (.mixinNotFound name)
  | .ok set => .ok (merge d set shader.body)

/-- The passes in the order in which they are drawn. -/
def PassSet.inOrder (set : PassSet) : List PassData :=
  set.passes.mergeSort fun p q => p.index ≤ q.index

section

variable {m : Type → Type} [Monad m]

/-- The programs of a pass in a dialect. -/
def Dialect.programs (d : Dialect) (c : Converter m) (code : String) (stages : List Stage) :
    ExceptT CompileError m (List GpuProgram) :=
  match d.target? with
  | none =>
    let source := Hlsl.clean code
    return stages.map fun stage => ⟨stage, d.language, stage.entryPoint, source⟩
  | some target => do
    let sources ← convertStages c code stages target
    return sources.map fun (stage, source) => ⟨stage, d.language, "main", source⟩

/-- A pass in each of several dialects. -/
def inDialects (c : Converter m) (p : PassData) (stages : List Stage) :
    List Dialect → ExceptT CompileError m (List Pass)
  | [] => return []
  | d :: ds => do
    let programs ← d.programs c p.code stages
    let passes ← inDialects c p stages ds
    return ⟨p.toPassStates, programs⟩ :: passes

/-- A pass in each of several dialects, and what was reflected. Blank code has no stages and is not
reflected. -/
def buildPass (c : Converter m) (dialects : List Dialect) (p : PassData) :
    ExceptT CompileError m (List Pass × List Reflection) := do
  if p.code.toList.all Text.isBlank then
    return (← inDialects c p [] dialects, [])
  else
    let (stages, reflection) ← detectStages c p.code
    return (← inDialects c p stages dialects, [reflection])

/-- Passes one behind another, each in every dialect. -/
def buildPasses (c : Converter m) (dialects : List Dialect) :
    List PassData → ExceptT CompileError m (List (List Pass) × List Reflection)
  | [] => return ([], [])
  | p :: ps => do
    let (row, reflections) ← buildPass c dialects p
    let (rows, others) ← buildPasses c dialects ps
    return (row :: rows, reflections ++ others)

/-- The techniques of a shader under a variation, one for each dialect, and what was reflected. A
technique without passes is left out. -/
def buildTechniques (c : Converter m) (targets : List TargetLanguage) (shader : Declaration)
    (set : PassSet) (variation : Variation) :
    ExceptT CompileError m (List Technique × List Reflection) := do
  let dialects := targets.map (·.dialect set.featureSet)
  let (rows, reflections) ← buildPasses c dialects set.inOrder
  let techniques := dialects.mapIdx fun i d =>
    (⟨d.language, shader.tags, variation, rows.filterMap (·[i]?)⟩ : Technique)
  return (techniques.filter (!·.passes.isEmpty), reflections)

end
end ShaderLang
