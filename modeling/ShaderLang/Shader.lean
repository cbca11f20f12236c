import ShaderLang.Catalog
import ShaderLang.Param.Table
import ShaderLang.Program.Stage
/-!
# Shaders

What a description is compiled to. A technique draws with one variation of a shader in one
language; it has passes, and a pass has a program for each of its stages. A shader brings the
sub-shaders with it that complete its extension points.

## Main definitions

* `GpuProgram`, `Pass`, `Technique` — a program, the programs and states of a pass, its passes
* `Shader`, `SubShader` — a compiled description
* `Shader.techniquesFor`, `Pass.program?` — the techniques of a language, the program of a stage
* `Shader.depth` — how deep sub-shaders are nested
-/

namespace ShaderLang

/-- A program of one stage. -/
structure GpuProgram where
  stage : Stage
  language : Language
  entryPoint : String
  source : String
  deriving DecidableEq, Inhabited

/-- A pass: its states, and a program for each of its stages. -/
structure Pass extends PassStates where
  programs : List GpuProgram
  deriving DecidableEq, Inhabited

/-- The program of a stage. -/
def Pass.program? (p : Pass) (stage : Stage) : Option GpuProgram :=
  p.programs.find? (·.stage = stage)

/-- One variation of a shader in one language. -/
structure Technique where
  language : Language
  tags : List String
  variation : Variation
  passes : List Pass
  deriving DecidableEq, Inhabited

/-- All programs of a technique, in the order of its passes. -/
def Technique.programs (t : Technique) : List GpuProgram := t.passes.flatMap (·.programs)

mutual

/-- A compiled description. -/
structure Shader where
  name : String
  options : ShaderOptions
  techniques : List Technique
  params : Params
  /-- What tools can choose of a variation. -/
  variationParams : List VariationParam
  subShaders : List SubShader
  /-- The files entered, in order of first entry. -/
  includes : List String

/-- A shader that completes an extension point. -/
structure SubShader where
  name : String
  shader : Shader

end

namespace Shader

/-- A shader without anything in it. -/
def empty (name : String) : Shader := ⟨name, .standard, [], .empty, [], [], []⟩

instance : Inhabited Shader := ⟨empty ""⟩

/-- The techniques of a language. -/
def techniquesFor (s : Shader) (language : Language) : List Technique :=
  s.techniques.filter (·.language = language)

end Shader

mutual

/-- How deep the sub-shaders of a shader are nested; one without any has depth one. -/
def Shader.depth : Shader → Nat
  | ⟨_, _, _, _, _, subShaders, _⟩ => SubShader.depths subShaders + 1

/-- The greatest depth among sub-shaders. -/
def SubShader.depths : List SubShader → Nat
  | [] => 0
  | s :: ss => max s.depth (SubShader.depths ss)

/-- The depth of the shader in a sub-shader. -/
def SubShader.depth : SubShader → Nat
  | ⟨_, shader⟩ => shader.depth

end

end ShaderLang
