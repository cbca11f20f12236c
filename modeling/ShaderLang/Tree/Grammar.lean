import ShaderLang.Tree.Form
/-!
# The grammar

The forms of a shader description and the reading of whole descriptions.

## Main definitions

* `Grammar.options`, `Grammar.shader`, `Grammar.subShader` — the forms at the top
* `Tree.ofTokens`, `Arena.ofTokens` — the tree of a row of tokens, and its blocks in a row
-/

namespace ShaderLang
namespace Grammar

open Form

/-- A token that may be missing. -/
def optional (kind : TokenKind) : Form := ifNext kind (eat kind) empty

/-- One of several keywords with the form behind it; `others` is what else an error lists. -/
def cases (table : List (Keyword × Form)) (others : List TokenKind) : Form :=
  let expected := table.map (fun k => TokenKind.keyword k.1) ++ others
  table.foldr (fun k no => ifNext (.keyword k.1) (seq (eat (.keyword k.1)) k.2) no) (fail expected)

/-- Statements that start with keywords, up to a closing brace. -/
def statements (table : List (Keyword × Form)) : Form := body (cases table [.punct .blockEnd])

/-- An assignment of a literal. -/
def assign (kind : SettingKind) (l : Literal) : Form := seq (eat (.punct .eq)) (take kind l)

/-- An assignment of a choice. -/
def choose (kind : SettingKind) (c : Choice) : Form := assign kind (.choice c)

/-- The opening brace of a block. -/
def opening : Form := eat (.punct .blockStart)

/-- The opening brace of a block that may be assigned. -/
def assigned : Form := seq (optional (.punct .eq)) opening

/-- A block of statements. -/
def block (kind : SettingKind) (node : NodeKind) (table : List (Keyword × Form)) : Form :=
  nested kind node (seq assigned (statements table))

def options : Form :=
  seq opening <| statements
    [(.separable, assign .separable .bool),
     (.sort, choose .sort .sortMode),
     (.priority, assign .priority .int),
     (.transparent, assign .transparent .bool),
     (.forward, assign .forward .bool)]

def raster : Form :=
  block .raster .raster
    [(.fill, choose .fillMode .fillMode),
     (.cull, choose .cullMode .cullMode),
     (.depthBias, assign .depthBias .float),
     (.slopeScaledDepthBias, assign .slopeScaledDepthBias .float),
     (.depthClip, assign .depthClip .bool),
     (.scissor, assign .scissor .bool),
     (.multisample, assign .multisample .bool),
     (.lineAntialiasing, assign .lineAntialiasing .bool)]

def depth : Form :=
  block .depth .depth
    [(.read, assign .depthRead .bool),
     (.write, assign .depthWrite .bool),
     (.compare, choose .compareFunc .compareFunc)]

/-- A row of words with commas between them, up to a closing brace. -/
def wordRow : List (SettingKind × Choice) → Form
  | [] => eat (.punct .blockEnd)
  | [(kind, c)] => seq (take kind (.choice c)) (eat (.punct .blockEnd))
  | (kind, c) :: rest =>
    seq (take kind (.choice c)) (seq (eat (.punct .comma)) (wordRow rest))

/-- A block that is either a row of words or statements. -/
def rowOrBlock (kind : SettingKind) (node : NodeKind) (row : List (SettingKind × Choice))
    (table : List (Keyword × Form)) : Form :=
  nested kind node (seq assigned (ifNext .identifier (wordRow row) (statements table)))

/-- What happens to the stencil buffer on one side. -/
def stencilOp (kind : SettingKind) : Form :=
  rowOrBlock kind .stencilOp
    [(.fail, .operand), (.depthFail, .operand), (.passOp, .operand), (.compareFunc, .compareFunc)]
    [(.fail, choose .fail .operand),
     (.depthFail, choose .depthFail .operand),
     (.pass, choose .passOp .operand),
     (.compare, choose .compareFunc .compareFunc)]

def stencil : Form :=
  block .stencil .stencil
    [(.enabled, assign .stencilEnabled .bool),
     (.readMask, assign .stencilReadMask .int),
     (.writeMask, assign .stencilWriteMask .int),
     (.reference, assign .stencilRef .int),
     (.front, stencilOp .stencilOpFront),
     (.back, stencilOp .stencilOpBack)]

/-- How one kind of channel is blended. -/
def blendDef (kind : SettingKind) : Form :=
  rowOrBlock kind .blendDef
    [(.source, .operand), (.destination, .operand), (.operation, .blendOp)]
    [(.source, choose .source .operand),
     (.destination, choose .destination .operand),
     (.operation, choose .operation .blendOp)]

def target : Form :=
  block .target .target
    [(.index, assign .index .int),
     (.enabled, assign .enabled .bool),
     (.writeMask, choose .writeMask .writeMask),
     (.color, blendDef .color),
     (.alpha, blendDef .alpha)]

def blend : Form :=
  block .blend .blend
    [(.alphaToCoverage, assign .alphaToCoverage .bool),
     (.independentBlend, assign .independentBlend .bool),
     (.target, target)]

def code : Form := nested .code .code (take .index .block)

/-- The statements that shaders and passes share. -/
def states : List (Keyword × Form) :=
  [(.code, code), (.raster, raster), (.depth, depth), (.stencil, stencil), (.blend, blend)]

def pass : Form := block .pass .pass ((.index, assign .index .int) :: states)

/-- A row of texts, perhaps empty. -/
def tags : Form :=
  nested .tags .tags <| seq assigned <|
    ifNext (.punct .blockEnd) (eat (.punct .blockEnd)) (commas .blockEnd (take .tagValue .text))

/-- Attributes in brackets, which may be missing. -/
def attributes : Form :=
  let name := seq (eat (.punct .parenStart)) (seq (take .attrName .text) (eat (.punct .parenEnd)))
  let one := cases [(.name, name), (.shown, flag .attrShow)] []
  ifNext (.punct .arrayStart)
    (nested .attributes .attributes (seq (eat (.punct .arrayStart)) (commas .arrayEnd one)))
    empty

/-- A value that a variation can have. -/
def variationOption : Form :=
  nested .variationOption .variationOption (seq attributes (take .variationValue .count))

def variation : Form :=
  nested .variation .variation <| seq attributes <| seq (optional (.keyword .variation)) <|
    seq (header .identifier .word) <| seq assigned <|
      ifNext (.punct .blockEnd) (eat (.punct .blockEnd)) (commas .blockEnd variationOption)

def variations : Form := nested .variations .variations (seq assigned (body variation))

/-- The name and the body of a shader or a mixin. -/
def shader : Form :=
  seq (header .identifier .word) <| seq opening <| statements <|
    [(.featureSet, assign .featureSet .word),
     (.mixin, take .included .word),
     (.tags, tags),
     (.variations, variations),
     (.pass, pass)] ++ states

/-- The name and the captured text of a sub-shader. -/
def subShader : Form := seq (header .identifier .word) (take .index .block)

/-- What stands behind a keyword at the top. -/
def top? : Keyword → Option Form
  | .options => some (nested .options .options options)
  | .shader => some (nested .shader .shader shader)
  | .mixin => some (nested .mixin .mixin shader)
  | .subShader => some (nested .subShader .subShader subShader)
  | _ => none

/-- Reads a whole description: blocks with semicolons anywhere between them. -/
def readTop (ts : List PlacedToken) : Except Rejection Parts :=
  match ts with
  | [] => .ok .none
  | t :: rest =>
    if isMark t .break then readTop rest
    else
      match t.token with
      | .keyword k =>
        match top? k with
        | none => .error (.token t (.unknownToken t.token))
        | some form =>
          match form.read rest with
          | .error e => .error e
          | .ok (parts, ts') =>
            if ts'.length ≤ rest.length then
              match readTop ts' with
              | .error e => .error e
              | .ok more => .ok (parts ++ more)
            else .ok parts
      | _ => .error (.token t (.unknownToken t.token))
termination_by ts.length

end Grammar

/-- The tree of a row of tokens. -/
def Tree.ofTokens (ts : List PlacedToken) : Except Fault Tree :=
  match Grammar.readTop ts with
  | .ok parts => .ok (parts.tree .root)
  | .error e => .error (e.fault ts)

/-- The arena of a row of tokens, with the number of its root. -/
def Arena.ofTokens (ts : List PlacedToken) : Except Fault (Nat × Arena) :=
  (Tree.ofTokens ts).map Arena.ofTree

end ShaderLang
