import ShaderLang.CommandLine
import ShaderLang.Compile.Compiler
import ShaderLang.FileTree
import ShaderLang.OutputPath
import ShaderLang.Shader.Binary
/-!
# The program

Compiles the descriptions named on the command line, and writes a file for each. Included files are
looked up beside the description and then in the directories given. They are read when the
compilation misses them: it is run again until it misses none that can be found.
-/

namespace ShaderLang.Main

/-- What the program says of itself. -/
def usage : String :=
  "usage: shaderlang [options] DESCRIPTION...\n\n" ++
  "  -o, --output PATH     output file, or output directory for several descriptions\n" ++
  "  -I, --include DIR     add a directory to the include search path\n" ++
  "  -D, --define NAME[=VALUE]  define a symbol\n" ++
  "  -l, --lang NAME       target language (default: hlsl)\n" ++
  "  -n, --threads N       number of variations to compile at a time\n" ++
  "      --strict-params   parameters declared twice must agree\n" ++
  "      --languages       print the target languages\n" ++
  "  -v, --verbose         more output\n" ++
  "  -h, --help            print this text\n" ++
  "  -V, --version         print the version\n"

/-- The bytes of a file, if it can be read. -/
def readFile? (path : String) : IO (Option (List UInt8)) := do
  try
    return some (← IO.FS.readBinFile path).toList
  catch _ => return none

/-- The path is a directory: only in a directory can its own entry be opened. -/
def isDirectory (path : String) : IO Bool := do
  try
    let _ ← IO.FS.Handle.mk (path ++ "/.") .read
    return true
  catch _ => return false

/-- The text of an included file, looked up in directories. -/
def findInclude (directories : List String) (name : String) : IO (Option String) := do
  let candidates ← directories.mapM fun directory => do
    let path := Path.join directory name
    return (path, ← readFile? path)
  return Includes.ofDirectories (fun path => (candidates.lookup path).join) directories name

/-- The file that a compilation missed. -/
def missing? : CompileError → Option String
  | .source fault =>
    match fault.cause with
    | .includeNotFound name => some name
    | _ => none
  | _ => none

/-- Compiles a description, reading included files as they are missed. Each file is looked up
once. -/
partial def compile (config : Config) (directories : List String) (name source : String)
    (known : List (String × Option String)) : IO (Except CompileError Shader) := do
  let compiler : Compiler Id :=
    { config
      includes := fun file => (known.lookup file).join
      converter := Hlsl.reflector
      extensions := .none
      verifier? := none }
  let result := (compiler.compile name source).run
  match result with
  | .ok shader => return .ok shader
  | .error e =>
    match missing? e with
    | none => return .error e
    | some file =>
      if (known.lookup file).isSome then return .error e
      else
        let text? ← findInclude directories file
        compile config directories name source ((file, text?) :: known)

/-- Compiles one description and writes the shader. -/
def compileFile (config : Config) (a : Arguments) (path : String) : IO Unit := do
  let source ← IO.FS.readFile path
  let name := ((Path.fileName? path).map Path.stem).getD ""
  let parent := ((Path.split? path).map (·.1)).toList
  match ← compile config (parent ++ a.directories) name source [] with
  | .error e => throw (IO.userError e.message)
  | .ok shader =>
    let output? := a.outputs.getLast?
    let directory ← match output? with
      | some output => isDirectory output
      | none => pure false
    let target := outputPath (fun _ => directory) output? path
    IO.FS.writeBinFile target (ByteArray.mk shader.toBytes.toArray)

/-- Reports an error and gives the exit code. -/
def fail (message : String) (code : UInt32) : IO UInt32 := do
  IO.eprintln message
  return code

/-- Compiles all descriptions. -/
def compileAll (config : Config) (a : Arguments) : IO UInt32 := do
  try
    if a.descriptions.length > 1 then
      for output in a.outputs.getLast? do
        IO.FS.createDirAll output
    for path in a.descriptions do
      compileFile config a path
    return 0
  catch e => fail (toString e) 1

/-- Does what the arguments say. -/
def run (a : Arguments) : IO UInt32 := do
  if a.has .help then
    IO.print usage
    return 0
  if a.has .version then
    IO.println "shaderlang 1.0.0"
    return 0
  if a.has .languages then
    let names := TargetLanguage.names.filter fun name =>
      (TargetLanguage.ofName? name).any Hlsl.supports
    IO.println ("Available target languages: " ++ String.intercalate ", " names)
    return 0
  if a.descriptions.isEmpty then
    return ← fail OptionError.noDescription.message 2
  match a.targets, threadsOf a.threads.getLast? with
  | .error e, _ => fail e.message 3
  | _, .error e => fail e.message 3
  | .ok languages, .ok threads =>
    let defines := Table.ofList (a.defines.map defineOf)
    compileAll ⟨languages, defines, threads, a.has .strict, false⟩ a

end ShaderLang.Main

def main (args : List String) : IO UInt32 := do
  match ShaderLang.Arguments.read args with
  | .ok a => ShaderLang.Main.run a
  | .error e => ShaderLang.Main.fail e.message 2
