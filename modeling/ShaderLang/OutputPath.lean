import ShaderLang.Path
/-!
# Output paths

Where a compiled shader is written.

## Main definitions

* `outputPath` — the path for an input, with what the user asked for
-/

namespace ShaderLang

/-- The extension of compiled shaders. -/
def outputExtension : String := "bslc"

/-- The path for an input. If nothing is asked for, it is the input's name with another extension,
in the working directory. In a directory it is the input's stem with that extension. A path that
has another extension gets this one. -/
def outputPath (isDirectory : String → Bool) (output? : Option String) (input : String) : String :=
  match output? with
  | none => Path.withExtension ((Path.fileName? input).getD "") outputExtension
  | some output =>
    if isDirectory output then
      let name := ((Path.fileName? input).map Path.stem).getD "a.out"
      Path.withExtension (Path.join output name) outputExtension
    else if (Path.fileName? output).bind Path.extension? = some outputExtension then output
    else Path.withExtension output outputExtension

end ShaderLang
