import ShaderLang.Number.Shortest
/-!
# Tokens

The words of the language: keywords, punctuation, literals, identifiers and captured blocks, and
the kinds in which an error speaks of them.

## Main definitions

* `Keyword`, `Punct` — the reserved words and the marks
* `Token` — a word of a source
* `TokenKind` — a class of tokens, as an error names it
-/

namespace ShaderLang

/-- The reserved words. -/
inductive Keyword
  | options | shader | subShader | mixin | separable | sort | priority | transparent | forward
  | featureSet | pass | tags | variations | variation | code | blend | raster | depth | stencil
  | fill | cull | depthBias | slopeScaledDepthBias | depthClip | scissor | multisample
  | lineAntialiasing | read | write | compare | reference | enabled | readMask | writeMask
  | front | back | fail | depthFail | alphaToCoverage | independentBlend | target | index | color
  | alpha | source | destination | operation | name | shown
  deriving DecidableEq, Inhabited

namespace Keyword

/-- How a keyword is written. -/
def spelling : Keyword → String
  | options => "options"
  | shader => "shader"
  | subShader => "subshader"
  | mixin => "mixin"
  | separable => "separable"
  | sort => "sort"
  | priority => "priority"
  | transparent => "transparent"
  | forward => "forward"
  | featureSet => "featureset"
  | pass => "pass"
  | tags => "tags"
  | variations => "variations"
  | variation => "variation"
  | code => "code"
  | blend => "blend"
  | raster => "raster"
  | depth => "depth"
  | stencil => "stencil"
  | fill => "fill"
  | cull => "cull"
  | depthBias => "depthbias"
  | slopeScaledDepthBias => "sdepthbias"
  | depthClip => "depthclip"
  | scissor => "scissor"
  | multisample => "multisample"
  | lineAntialiasing => "lineaa"
  | read => "read"
  | write => "write"
  | compare => "compare"
  | reference => "reference"
  | enabled => "enabled"
  | readMask => "readmask"
  | writeMask => "writemask"
  | front => "front"
  | back => "back"
  | fail => "fail"
  | depthFail => "zfail"
  | alphaToCoverage => "alphatocoverage"
  | independentBlend => "independantblend"
  | target => "target"
  | index => "index"
  | color => "color"
  | alpha => "alpha"
  | source => "source"
  | destination => "dest"
  | operation => "op"
  | name => "name"
  | shown => "show"

/-- Every keyword, in the order of declaration. -/
def all : List Keyword :=
  [.options, .shader, .subShader, .mixin, .separable, .sort, .priority, .transparent, .forward,
   .featureSet, .pass, .tags, .variations, .variation, .code, .blend, .raster, .depth,
   .stencil, .fill, .cull, .depthBias, .slopeScaledDepthBias, .depthClip, .scissor,
   .multisample, .lineAntialiasing, .read, .write, .compare, .reference, .enabled, .readMask,
   .writeMask, .front, .back, .fail, .depthFail, .alphaToCoverage, .independentBlend, .target,
   .index, .color, .alpha, .source, .destination, .operation, .name, .shown]

/-- The keyword that is written so. Keywords are case sensitive. -/
def ofSpelling? (word : String) : Option Keyword := all.find? (·.spelling == word)

theorem mem_all (k : Keyword) : k ∈ all := by cases k <;> decide

end Keyword

/-- The punctuation marks. -/
inductive Punct
  | eq | comma | break | blockStart | blockEnd | arrayStart | arrayEnd | parenStart | parenEnd
  deriving DecidableEq, Inhabited

namespace Punct

/-- How a mark is written. -/
def char : Punct → Char
  | eq => '='
  | comma => ','
  | «break» => ';'
  | blockStart => '\x7b'
  | blockEnd => '\x7d'
  | arrayStart => '['
  | arrayEnd => ']'
  | parenStart => '('
  | parenEnd => ')'

/-- Every mark. -/
def all : List Punct :=
  [.eq, .comma, .break, .blockStart, .blockEnd, .arrayStart, .arrayEnd, .parenStart, .parenEnd]

/-- The mark that is written so. -/
def ofChar? (c : Char) : Option Punct := all.find? (·.char == c)

end Punct

/-- A word of a source. -/
inductive Token
  | keyword (k : Keyword)
  | punct (p : Punct)
  | bool (b : Bool)
  | int (n : Int)
  | float (x : Binary32)
  | str (s : String)
  | identifier (name : String)
  /-- A block captured verbatim; the number counts the blocks of its kind. -/
  | rawBlock (index : Nat)
  deriving DecidableEq, Inhabited

/-- A class of tokens. -/
inductive TokenKind
  | keyword (k : Keyword)
  | punct (p : Punct)
  | bool | int | float | str | identifier | rawBlock
  deriving DecidableEq, Inhabited

/-- The name of a class: a mark is quoted. -/
def TokenKind.name : TokenKind → String
  | keyword k => k.spelling
  | punct p => String.ofList ['\'', p.char, '\'']
  | bool => "bool"
  | int => "int"
  | float => "float"
  | str => "string"
  | identifier => "identifier"
  | rawBlock => "code block"

/-- The names of several classes, as alternatives. -/
def TokenKind.alternatives (kinds : List TokenKind) : String :=
  String.intercalate " or " (kinds.map name)

namespace Token

/-- The class of a token. -/
def kind : Token → TokenKind
  | keyword k => .keyword k
  | punct p => .punct p
  | bool _ => .bool
  | int _ => .int
  | float _ => .float
  | str _ => .str
  | identifier _ => .identifier
  | rawBlock _ => .rawBlock

/-- A token as an error shows it: the name of its class, with the value of a literal. -/
def text : Token → String
  | bool b => "bool(" ++ (if b then "true" else "false") ++ ")"
  | int n => "int(" ++ toString n ++ ")"
  | float x => "float(" ++ x.text ++ ")"
  | str s => "string(\"" ++ s ++ "\")"
  | identifier s => "identifier(" ++ s ++ ")"
  | rawBlock i => "code block #" ++ toString i
  | t => t.kind.name

/-- The token of a word of name characters: a truth value, a keyword or an identifier. -/
def ofWord (word : String) : Token :=
  if word = "true" then bool true
  else if word = "false" then bool false
  else match Keyword.ofSpelling? word with
    | some k => keyword k
    | none => identifier word

theorem ofWord_spelling (k : Keyword) : ofWord k.spelling = keyword k :=
  have h : ∀ k ∈ Keyword.all, ofWord k.spelling = keyword k := by decide +kernel
  h k (Keyword.mem_all k)

end Token
end ShaderLang
