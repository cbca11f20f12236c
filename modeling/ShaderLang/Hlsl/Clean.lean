import ShaderLang.Text.Sweep
/-!
# Clean program text

Program text without what only this compiler understands: the attributes in brackets, the texture
that an initializer names, and the barriers over several groups.

## Main definitions

* `Hlsl.attributes`, `Hlsl.editorAttributes`, `Hlsl.textureDefault`, `Hlsl.barrier` — what is looked
  for
* `Hlsl.clean` — the text without it
-/

namespace ShaderLang.Hlsl

open Pattern

/-- Something in brackets. -/
def bracketed (p : Pattern) : Pattern := seqs [lit "[", blanks, p, blanks, lit "]"]

/-- A word with an argument list that goes as far as its line allows. -/
def withArguments (word : String) (arguments : Pattern) : Pattern :=
  seqs [lit word, blanks, lit "(", arguments, lit ")"]

/-- Attributes that say how a variable is bound and used. -/
def attributes : Pattern :=
  alts
    [bracketed (withArguments "layout" inLine),
     bracketed (lit "internal"),
     bracketed (lit "color"),
     bracketed (withArguments "alias" inLine),
     bracketed (withArguments "spriteuv" inLine)]

/-- Attributes that say how an editor shows a variable. -/
def editorAttributes : Pattern :=
  alts
    [bracketed (lit "hideInInspector"),
     bracketed (withArguments "name" (seqs [lit "\"", inLine, lit "\""])),
     bracketed (lit "hdr")]

/-- A texture with an initializer, up to the last semicolon of the line. -/
def textureDefault : Pattern :=
  seqs [lit "Texture2D", blanks, group "name" (run fun c => !Text.isBlank c), blanks,
    lit "=", inLine, lit ";"]

/-- A barrier over several groups, with `ending` behind its name. -/
def barrier (ending : String) : Pattern :=
  seqs [lit "Warp", group "scope" (alts [lit "Group", lit "Device", lit "All"]),
    lit "MemoryBarrier", lit ending]

/-- Program text without attributes, texture initializers and barriers over several groups. -/
def clean (code : String) : String :=
  let code := attributes.replace (fun _ => []) code.toList
  let code := editorAttributes.replace (fun _ => []) code
  let code := textureDefault.replace
    (fun m => "Texture2D ".toList ++ m.get "name" ++ ";".toList) code
  let code := (barrier "WithWarpSync").replace
    (fun m => m.get "scope" ++ "MemoryBarrierWithGroupSync".toList) code
  String.ofList <| (barrier "").replace (fun m => m.get "scope" ++ "MemoryBarrier".toList) code

end ShaderLang.Hlsl
