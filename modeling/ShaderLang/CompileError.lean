import ShaderLang.Fault
/-!
# Errors of a compilation

Why a description could not be compiled.

## Main definitions

* `CompileError` — the cause
* `CompileError.message` — the report
-/

namespace ShaderLang

/-- Why a description could not be compiled. -/
inductive CompileError
  /-- The source has a fault. -/
  | source (fault : Fault)
  | mixinNotFound (name : String)
  /-- A program could not be reflected or converted. -/
  | crossCompile (log : String)
  /-- Verification rejected programs. -/
  | gpuProgram (report : String)
  /-- A parameter is declared twice, and `what` differs. -/
  | parameterMismatch (name what first second : String)
  /-- The look-up of an extension point failed. -/
  | extensionPoint (name reason : String)
  /-- Sub-shaders bring in sub-shaders without end. -/
  | nestingTooDeep (name : String)
  deriving DecidableEq

/-- The report of an error. -/
def CompileError.message : CompileError → String
  | source fault => "syntax error: " ++ fault.message
  | mixinNotFound name => "Mixin \"" ++ name ++ "\" cannot be found."
  | crossCompile log => "Shader cross compilation failed. Log: \n\n" ++ log
  | gpuProgram report => "Failed compiling GPU program(s): " ++ report
  | parameterMismatch name what first second =>
    "parameter '" ++ name ++ "' redeclared with a different " ++ what ++ " (" ++ first ++ " -> " ++
      second ++ ")"
  | extensionPoint name reason =>
    "failed to resolve extension point '" ++ name ++ "': " ++ reason
  | nestingTooDeep name => "sub-shader '" ++ name ++ "' is nested too deeply"

end ShaderLang
