import ShaderLang.Source.Session
import ShaderLang.Shader.Verify
import ShaderLang.Conversion
/-!
# Compilers

What a compilation needs beside the source: what the user asks for, the files that can be included,
a converter, the shaders that complete extension points, and a backend.

## Main definitions

* `Config` — what the user asks for
* `ExtensionShader`, `Extensions` — shaders for extension points, and their look-up
* `Compiler` — all of it
-/

namespace ShaderLang

/-- What the user asks for. -/
structure Config where
  /-- The languages to make techniques in. Their order and repetitions do not count. -/
  languages : List TargetLanguage
  /-- Defines for every reading of the source; those of a variation go over them. -/
  defines : Table String
  /-- How many variations may be compiled at a time. -/
  threads : Nat
  /-- Parameters that are declared twice must agree. -/
  strict : Bool
  /-- Programs are shown to the backend, if there is one. -/
  verify : Bool
  deriving DecidableEq

/-- Techniques in the language itself, one variation at a time. -/
def Config.standard : Config := ⟨[.hlsl], .empty, 1, false, false⟩

instance : Inhabited Config := ⟨.standard⟩

/-- The languages asked for, in the order in which techniques are built. -/
def Config.targets (c : Config) : List TargetLanguage :=
  TargetLanguage.all.filter (c.languages.contains ·)

/-- A shader that completes an extension point. -/
structure ExtensionShader where
  name : String
  source : String
  defines : Table String
  deriving DecidableEq, Inhabited

/-- The shaders for an extension point, or why they could not be looked up. -/
abbrev Extensions := String → Except String (List ExtensionShader)

/-- No extension point is ever completed. -/
def Extensions.none : Extensions := fun _ => .ok []

/-- The shaders of a table. -/
def Extensions.ofTable (t : Table (List ExtensionShader)) : Extensions :=
  fun point => .ok ((t.get? point).getD [])

/-- What a compilation needs beside the source. -/
structure Compiler (m : Type → Type) where
  config : Config
  includes : Includes
  converter : Converter m
  extensions : Extensions
  verifier? : Option Verifier

end ShaderLang
