import ShaderLang.CompileError
import ShaderLang.CompileLog
import ShaderLang.Hlsl.Reflect
import ShaderLang.Program.Stage
/-!
# Conversion

Programs handed to a converter, which answers with a text in another language and a reflection.
The stages of a program are converted in pipeline order; each gets bindings above those of the
stages before it. A converter may do more than answer, so it runs in a monad.

## Main definitions

* `Target`, `Request`, `Converted`, `Converter` — what is asked of a converter, and its answer
* `convert` — one stage
* `detectStages` — the stages of a program and its reflection
* `convertStages` — several stages
* `Hlsl.reflector` — a converter that only reflects
-/

namespace ShaderLang

/-- What a program is converted into. -/
inductive Target
  | glsl41 | glsl45 | vksl45 | mvksl
  deriving DecidableEq, Inhabited

namespace Target

/-- The name of a target in reports. -/
def name : Target → String
  | glsl41 => "Glsl41"
  | glsl45 => "Glsl45"
  | vksl45 => "Vksl45"
  | mvksl => "Mvksl"

/-- The line that goes before a program, by which it can tell its target. -/
def defineLine : Target → String
  | glsl41 | glsl45 => "#define OPENGL 1\n"
  | vksl45 => "#define VULKAN 1\n"
  | mvksl => "#define METAL 1\n"

/-- The target has bindings without gaps, and samplers apart from textures. -/
def isVulkan : Target → Bool
  | glsl41 | glsl45 => false
  | vksl45 | mvksl => true

end Target

/-- What is asked of a converter. -/
structure Request where
  source : String
  stage : Stage
  target : Target
  /-- Resources lie at `bindingStart` or above. -/
  bindingStart : Nat
  /-- Only the reflection is asked for. -/
  reflectOnly : Bool
  deriving DecidableEq, Inhabited

namespace Request

/-- The function that the stage starts with. -/
def entryPoint (r : Request) : String := r.stage.entryPoint

/-- The converter chooses the bindings. -/
def autoBinding (r : Request) : Bool := r.target.isVulkan

/-- Samplers are apart from textures. -/
def separateSamplers (r : Request) : Bool := r.target.isVulkan

end Request

/-- The answer of a converter. -/
structure Converted where
  source : String
  reflection : Reflection
  log : CompileLog
  deriving DecidableEq, Inhabited

/-- A converter answers, or fails with a log. -/
abbrev Converter (m : Type → Type) := Request → m (Except CompileLog Converted)

/-- A program as it is handed to a converter. -/
def Request.ofProgram (hlsl : String) (stage : Stage) (target : Target) (start : Nat)
    (reflectOnly : Bool) : Request :=
  ⟨target.defineLine ++ hlsl, stage, target, start, reflectOnly⟩

/-- What a failed answer means: if the stage is optional and the program has no function for it,
an empty answer that takes no bindings, else an error. -/
def afterFailure (stage : Stage) (optional : Bool) (start : Nat) (log : CompileLog) :
    Except CompileError (Converted × Nat) :=
  match log.reflection? with
  | some r =>
    if optional && !r.hasFunction stage.entryPoint then
      .ok (⟨"", r, { log with reflection? := none }⟩, start)
    else .error (.crossCompile log.text)
  | none => .error (.crossCompile log.text)

/-- What an answer means: the answer, and the first binding for the next stage. -/
def afterAnswer (stage : Stage) (optional : Bool) (start : Nat) :
    Except CompileLog Converted → Except CompileError (Converted × Nat)
  | .ok t => .ok (t, t.reflection.nextBinding start)
  | .error log => afterFailure stage optional start log

section

variable {m : Type → Type} [Monad m]

/-- Converts one stage, with bindings from `start` on. -/
def convert (c : Converter m) (hlsl : String) (stage : Stage) (target : Target)
    (optional reflectOnly : Bool) (start : Nat) : ExceptT CompileError m (Converted × Nat) :=
  ExceptT.mk <| afterAnswer stage optional start <$>
    c (Request.ofProgram hlsl stage target start reflectOnly)

/-- The stages whose functions are among the given ones, in pipeline order. -/
def Stage.among (functions : List String) : List Stage :=
  Stage.all.filter fun s => functions.contains s.entryPoint

/-- The stages of a program and its reflection. A program without any is an error if the converter
had something to report. -/
def detectStages (c : Converter m) (hlsl : String) :
    ExceptT CompileError m (List Stage × Reflection) := do
  let (result, _) ← convert c hlsl .vertex .glsl45 true true 0
  let stages := Stage.among result.reflection.functions
  if stages.isEmpty && !result.log.isEmpty then throw (.crossCompile result.log.text)
  return (stages, result.reflection)

/-- Converts stages one behind another, with bindings from `start` on. -/
def convertFrom (c : Converter m) (hlsl : String) (target : Target) :
    List Stage → Nat → ExceptT CompileError m (List (Stage × String))
  | [], _ => return []
  | stage :: stages, start => do
    let (result, next) ← convert c hlsl stage target false false start
    let rest ← convertFrom c hlsl target stages next
    return (stage, result.source) :: rest

/-- Converts each of the given stages once, in pipeline order. -/
def convertStages (c : Converter m) (hlsl : String) (stages : List Stage) (target : Target) :
    ExceptT CompileError m (List (Stage × String)) :=
  convertFrom c hlsl target (Stage.all.filter (stages.contains ·)) 0

end

namespace Hlsl

/-- Programs in the language itself need no converter but the one below. -/
def supports (language : TargetLanguage) : Bool := language = .hlsl

/-- A converter that only reflects. A program without the asked function fails, with its
reflection in the log. -/
def reflector (r : Request) : Except CompileLog Converted :=
  if !r.reflectOnly then
    let message := "error : translation to " ++ r.target.name ++ " is not available"
    .error ⟨[.ofError message], none⟩
  else
    match reflect? r.source r.bindingStart with
    | none => .error ⟨[.ofError "error : unbalanced braces"], none⟩
    | some reflection =>
      if reflection.hasFunction r.entryPoint then .ok ⟨"", reflection, .empty⟩
      else
        .error ⟨[.ofError ("error : entry point '" ++ r.entryPoint ++ "' not found")],
          some reflection⟩

end Hlsl
end ShaderLang
