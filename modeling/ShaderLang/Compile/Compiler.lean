import ShaderLang.Compile.Job
import ShaderLang.Param.Registration
/-!
# Compilation

A description compiled to a shader: all variations of its shaders, the parameters that their
programs declare, and the sub-shaders that complete its extension points. A sub-shader is compiled
the same way, from the source that was registered for its extension point and the text captured in
the description.

## Main definitions

* `Params.registerReflections` — the parameters of several programs
* `Compiler.compileOwnBy`, `Compiler.compileToBy` — a compilation without sub-shaders, and one with
  sub-shaders up to a depth, for any way to run jobs
* `Compiler.compileOwn`, `Compiler.compileTo` — the same with the number of threads that was asked
  for
* `Compiler.compile` — a compilation
-/

namespace ShaderLang

/-- Registers what programs declare, up to the first that cannot be. -/
def Params.registerReflections (strict : Bool) (p : Params) :
    List Reflection → Except CompileError Params
  | [] => .ok p
  | r :: rs =>
    match p.register strict r with
    | (p, none) => registerReflections strict p rs
    | (_, some e) => .error e

/-- Adds the texts that a list does not hold yet. -/
def addNew (known more : List String) : List String :=
  more.foldl (fun ss s => if ss.contains s then ss else ss ++ [s]) known

/-- A shader put together from the results of its jobs, without its sub-shaders. -/
def Shader.assemble (strict : Bool) (name : String) (catalog : Catalog)
    (populated : List Declaration) (outputs : List JobOutput) : Except CompileError Shader := do
  let params ← Params.registerReflections strict .empty (outputs.flatMap (·.reflections))
  return {
    name
    options := catalog.options
    techniques := outputs.flatMap (·.techniques)
    params
    variationParams := (populated.filter (!·.isMixin)).flatMap (·.variations)
    subShaders := []
    includes := outputs.foldl (fun known o => addNew known o.includes) [] }

/-- A shader that completes an extension point keeps nothing of its compilation but the
techniques. -/
def SubShader.ofCompiled (name : String) (compiled : Shader) : SubShader :=
  ⟨name, { Shader.empty name with techniques := compiled.techniques }⟩

namespace Compiler

variable {m n : Type → Type} [Monad m] [Monad n]

/-- Compiles all but the sub-shaders, and gives the document with its declarations as well. -/
def compileOwnBy (c : Compiler m)
    (run : List (ExceptT CompileError m JobOutput) → ExceptT CompileError n (List JobOutput))
    (name source : String) (defines : Table String) :
    ExceptT CompileError n (Document × Catalog × Shader) := do
  let d ← ofExcept ((Document.read source defines c.includes).mapError CompileError.source)
  let catalog := Catalog.ofDocument d
  let populated ← ofExcept ((Declaration.populate catalog.declarations).mapError
    CompileError.mixinNotFound)
  let outputs ← run ((Job.all populated).map (·.run c source defines))
  let shader ← ofExcept (Shader.assemble c.config.strict name catalog populated outputs)
  match c.config.verify, c.verifier? with
  | true, some v => ofExcept (verify v shader.techniques)
  | _, _ => pure ()
  return (d, catalog, shader)

/-- Compiles all but the sub-shaders on the threads that the configuration allows. -/
def compileOwn (c : Compiler m) (name source : String) (defines : Table String) :
    ExceptT CompileError m (Document × Catalog × Shader) :=
  c.compileOwnBy (runJobs c.config.threads) name source defines

/-- The shaders to compile for a sub-shader: each with its source behind which the captured text
stands. A sub-shader without captured text has none. -/
def completions (c : Compiler m) (d : Document) (slot : SubShaderSlot) :
    Except CompileError (List ExtensionShader) :=
  match d.code? .subShader slot.block with
  | none => .ok []
  | some raw =>
    match c.extensions slot.name with
    | .error reason => .error (.extensionPoint slot.name reason)
    | .ok points => .ok (points.map fun p => { p with source := p.source ++ "\n" ++ raw })

/-- Compiles a description whose sub-shaders are nested at most so deep. -/
def compileToBy (c : Compiler m)
    (run : List (ExceptT CompileError m JobOutput) → ExceptT CompileError n (List JobOutput)) :
    Nat → String → String → Table String → ExceptT CompileError n Shader
  | 0, name, _, _ => throw (.nestingTooDeep name)
  | depth + 1, name, source, defines => do
    let (d, catalog, shader) ← c.compileOwnBy run name source defines
    let subShaders ← catalog.subShaders.mapM fun slot => do
      let points ← ofExcept (c.completions d slot)
      points.mapM fun p => do
        return SubShader.ofCompiled p.name (← compileToBy c run depth p.name p.source p.defines)
    return { shader with subShaders := subShaders.flatten }

/-- Compiles a description with nested sub-shaders on the threads that the configuration allows. -/
def compileTo (c : Compiler m) (depth : Nat) (name source : String) (defines : Table String) :
    ExceptT CompileError m Shader :=
  c.compileToBy (runJobs c.config.threads) depth name source defines

/-- How deep sub-shaders may bring in one another. -/
def nestingLimit : Nat := 100000

/-- Compiles a description under the defines of the configuration. -/
def compile (c : Compiler m) (name source : String) : ExceptT CompileError m Shader :=
  c.compileTo nestingLimit name source c.config.defines

theorem compileTo_succ (c : Compiler m) (depth : Nat) (name source : String)
    (defines : Table String) :
    c.compileTo (depth + 1) name source defines = (do
      let (d, catalog, shader) ← c.compileOwn name source defines
      let subShaders ← catalog.subShaders.mapM fun slot => do
        let points ← ofExcept (c.completions d slot)
        points.mapM fun p => do
          return SubShader.ofCompiled p.name (← c.compileTo depth p.name p.source p.defines)
      return { shader with subShaders := subShaders.flatten }) := rfl

end Compiler
end ShaderLang
