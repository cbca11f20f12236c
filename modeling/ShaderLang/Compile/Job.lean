import ShaderLang.Compile.Technique
/-!
# Jobs

The units of a compilation: one variation of one shader. A job reads the source anew under the
defines of its variation. Jobs may run at the same time and end in any order; their results are
put back into the order of the jobs.

## Main definitions

* `Job`, `Job.all` — a variation of a shader; the jobs of a description
* `Job.run` — compiles one
* `Delivery.collect` — results in the order of their jobs
* `runJobs` — one job behind another, or all of them
-/

namespace ShaderLang

/-- One variation of the shaders of a name. -/
structure Job where
  shader : String
  variation : Variation
  deriving DecidableEq, Inhabited

/-- What a job gives. -/
structure JobOutput where
  techniques : List Technique
  reflections : List Reflection
  /-- The files entered. -/
  includes : List String
  deriving DecidableEq, Inhabited

/-- The variations of each shader among declarations. -/
def Job.all (ds : List Declaration) : List Job :=
  (ds.filter (!·.isMixin)).flatMap fun d => (Variation.expand d.variations).map fun v => ⟨d.name, v⟩

/-- The result of a job with the number of the job. -/
abbrev Delivery (α : Type) := Nat × Except CompileError α

/-- Results that came in some order, in the order of their jobs. The error that came first is
reported. -/
def Delivery.collect {α : Type} (ds : List (Delivery α)) : Except CompileError (List α) := do
  let outputs ← ds.mapM fun d => d.2.map (d.1, ·)
  return (outputs.mergeSort fun a b => a.1 ≤ b.1).map (·.2)

section

variable {m : Type → Type} [Monad m]

/-- Compiles the shaders of a name under a variation, of those that a document declares. -/
def buildShaders (c : Compiler m) (d : Document) (ds : List Declaration) (v : Variation) :
    List Declaration → ExceptT CompileError m (List Technique × List Reflection)
  | [] => return ([], [])
  | shader :: shaders => do
    let set ← ofExcept (PassSet.ofDeclaration d ds shader)
    let (techniques, reflections) ← buildTechniques c.converter c.config.targets shader set v
    let (others, more) ← buildShaders c d ds v shaders
    return (techniques ++ others, reflections ++ more)

/-- Compiles one variation. -/
def Job.run (c : Compiler m) (source : String) (defines : Table String) (j : Job) :
    ExceptT CompileError m JobOutput := do
  let d ← ofExcept ((Document.read source (j.variation.defines defines) c.includes).mapError
    CompileError.source)
  let ds := (Catalog.ofDocument d).declarations
  let named := ds.filter fun s => !s.isMixin && s.name == j.shader
  let (techniques, reflections) ← buildShaders c d ds j.variation named
  return ⟨techniques, reflections, d.includes⟩

/-- Runs jobs. One at a time, they stop at the first error; at the same time, all of them run to
their end. -/
def runJobs {α : Type} (threads : Nat) (jobs : List (ExceptT CompileError m α)) :
    ExceptT CompileError m (List α) :=
  if threads ≤ 1 ∨ jobs.length ≤ 1 then jobs.mapM id
  else
    ExceptT.mk do
      let results ← jobs.mapM ExceptT.run
      return Delivery.collect (results.mapIdx fun i r => (i, r))

end
end ShaderLang
