import ShaderLang.Proofs.Grammar.Terminal
import ShaderLang.Tree.Node
/-!
# The sentences of the language

The grammar of shader descriptions: which rows of tokens are descriptions, and the tree of each. The
rules speak of tokens and trees only. Every rule that builds a block builds one node, whose declared
settings are those of the rule in the order in which they are written; the name of a block comes
last among them.

## Main definitions

* `Tree.declaring` — a node with the settings that its source declares
* `Sentence.Statement`, `Sentence.Phrase` — rows of tokens that write one setting, or several
* `Sentence.shader`, `Sentence.pass`, `Sentence.stencil`, … — the productions
* `Sentence` — a description and its tree
-/

namespace ShaderLang

/-- A block of a kind whose source declares the given settings. -/
def Tree.declaring (kind : NodeKind) (items : List (Setting Tree)) : Tree :=
  .node ⟨kind, items.reverse⟩

namespace Sentence

/-- Rows of tokens that write one setting. -/
abbrev Statement := List Token → Setting Tree → Prop

/-- Rows of tokens that write settings. -/
abbrev Phrase := List Token → List (Setting Tree) → Prop

/-! ## Shapes of rules -/

/-- One of several statements. -/
def OneOf (alternatives : List Statement) : Statement := fun ts i => ∃ S ∈ alternatives, S ts i

/-- A single token that sets a value. -/
inductive Value (kind : SettingKind) (l : Literal) : Statement
  | intro {t leaf} (h : l.Means t leaf) : Value kind l [t] ⟨kind, .leaf leaf⟩

/-- A keyword behind which a statement goes on. -/
inductive Keyed (k : Keyword) (S : Statement) : Statement
  | intro {ts i} (h : S ts i) : Keyed k S (.keyword k :: ts) i

/-- An equals sign and a value. -/
inductive Equals (kind : SettingKind) (l : Literal) : Statement
  | intro {ts i} (h : Value kind l ts i) : Equals kind l (.punct .eq :: ts) i

/-- `keyword = value`. -/
def Assignment (k : Keyword) (kind : SettingKind) (l : Literal) : Statement :=
  Keyed k (Equals kind l)

/-- A node for the settings of a phrase. -/
inductive Block (kind : SettingKind) (node : NodeKind) (P : Phrase) : Statement
  | intro {ts items} (h : P ts items) : Block kind node P ts ⟨kind, .node (.declaring node items)⟩

/-- A phrase of one statement. -/
inductive Single (S : Statement) : Phrase
  | intro {ts i} (h : S ts i) : Single S ts [i]

/-- An opening brace and a phrase. -/
inductive Braced (P : Phrase) : Phrase
  | intro {ts items} (h : P ts items) : Braced P (.punct .blockStart :: ts) items

/-- A phrase in front of which a token may stand. -/
inductive Optional (t : Token) (P : Phrase) : Phrase
  | without {ts items} (h : P ts items) : Optional t P ts items
  | behind {ts items} (h : P ts items) : Optional t P (t :: ts) items

/-- A block that may be assigned: `= {` or `{`. -/
def Assigned (P : Phrase) : Phrase := Optional (.punct .eq) (Braced P)

/-- Statements up to a closing brace, with any number of semicolons around them. -/
inductive Body (S : Statement) : Phrase
  | close : Body S [.punct .blockEnd] []
  | semicolon {ts items} (h : Body S ts items) : Body S (.punct .break :: ts) items
  | statement {ts us i items} (h : S ts i) (hs : Body S us items) : Body S (ts ++ us) (i :: items)

/-- At least one statement, with commas between them, up to a closing mark. -/
inductive Row (S : Statement) (close : Punct) : Phrase
  | last {ts i} (h : S ts i) : Row S close (ts ++ [.punct close]) [i]
  | more {ts us i items} (h : S ts i) (hs : Row S close us items) :
      Row S close (ts ++ .punct .comma :: us) (i :: items)

/-- A closing brace at once, or a row in front of it. -/
inductive RowOrNothing (S : Statement) : Phrase
  | nothing : RowOrNothing S [.punct .blockEnd] []
  | row {ts items} (h : Row S .blockEnd ts items) : RowOrNothing S ts items

/-- Given words in their order, with commas between them, up to a closing brace. -/
inductive Words : List (SettingKind × Choice) → Phrase
  | last {kind c ts i} (h : Value kind (.choice c) ts i) :
      Words [(kind, c)] (ts ++ [.punct .blockEnd]) [i]
  | more {kind c ts i e words us items} (h : Value kind (.choice c) ts i)
      (hs : Words (e :: words) us items) :
      Words ((kind, c) :: e :: words) (ts ++ .punct .comma :: us) (i :: items)

/-- Either given words or a body of statements. -/
inductive WordsOrBody (words : List (SettingKind × Choice)) (S : Statement) : Phrase
  | words {ts items} (h : Words words ts items) : WordsOrBody words S ts items
  | body {ts items} (h : Body S ts items) : WordsOrBody words S ts items

/-- A name in front of a phrase. -/
inductive Named (P : Phrase) : Phrase
  | intro {ts items} (name : String) (h : P ts items) :
      Named P (.identifier name :: ts) (items ++ [⟨.identifier, .leaf (.str name)⟩])

/-! ## The productions -/

def options : Phrase :=
  Braced <| Body <| OneOf
    [Assignment .separable .separable .bool,
     Assignment .sort .sort (.choice .sortMode),
     Assignment .priority .priority .int,
     Assignment .transparent .transparent .bool,
     Assignment .forward .forward .bool]

def raster : Phrase :=
  Assigned <| Body <| OneOf
    [Assignment .fill .fillMode (.choice .fillMode),
     Assignment .cull .cullMode (.choice .cullMode),
     Assignment .depthBias .depthBias .float,
     Assignment .slopeScaledDepthBias .slopeScaledDepthBias .float,
     Assignment .depthClip .depthClip .bool,
     Assignment .scissor .scissor .bool,
     Assignment .multisample .multisample .bool,
     Assignment .lineAntialiasing .lineAntialiasing .bool]

def depth : Phrase :=
  Assigned <| Body <| OneOf
    [Assignment .read .depthRead .bool,
     Assignment .write .depthWrite .bool,
     Assignment .compare .compareFunc (.choice .compareFunc)]

/-- `{ fail, depthFail, pass, compare }`, or a body of assignments of these. -/
def stencilOp : Phrase :=
  Assigned <| WordsOrBody
    [(.fail, .operand), (.depthFail, .operand), (.passOp, .operand), (.compareFunc, .compareFunc)]
    (OneOf
      [Assignment .fail .fail (.choice .operand),
       Assignment .depthFail .depthFail (.choice .operand),
       Assignment .pass .passOp (.choice .operand),
       Assignment .compare .compareFunc (.choice .compareFunc)])

def stencil : Phrase :=
  Assigned <| Body <| OneOf
    [Assignment .enabled .stencilEnabled .bool,
     Assignment .readMask .stencilReadMask .int,
     Assignment .writeMask .stencilWriteMask .int,
     Assignment .reference .stencilRef .int,
     Keyed .front (Block .stencilOpFront .stencilOp stencilOp),
     Keyed .back (Block .stencilOpBack .stencilOp stencilOp)]

/-- `{ source, destination, operation }`, or a body of assignments of these. -/
def blendDef : Phrase :=
  Assigned <| WordsOrBody
    [(.source, .operand), (.destination, .operand), (.operation, .blendOp)]
    (OneOf
      [Assignment .source .source (.choice .operand),
       Assignment .destination .destination (.choice .operand),
       Assignment .operation .operation (.choice .blendOp)])

def target : Phrase :=
  Assigned <| Body <| OneOf
    [Assignment .index .index .int,
     Assignment .enabled .enabled .bool,
     Assignment .writeMask .writeMask (.choice .writeMask),
     Keyed .color (Block .color .blendDef blendDef),
     Keyed .alpha (Block .alpha .blendDef blendDef)]

def blend : Phrase :=
  Assigned <| Body <| OneOf
    [Assignment .alphaToCoverage .alphaToCoverage .bool,
     Assignment .independentBlend .independentBlend .bool,
     Keyed .target (Block .target .target target)]

def code : Phrase := Single (Value .index .block)

/-- The statements that shaders and passes share. -/
def states : List Statement :=
  [Keyed .code (Block .code .code code),
   Keyed .raster (Block .raster .raster raster),
   Keyed .depth (Block .depth .depth depth),
   Keyed .stencil (Block .stencil .stencil stencil),
   Keyed .blend (Block .blend .blend blend)]

def pass : Phrase := Assigned <| Body <| OneOf (Assignment .index .index .int :: states)

def tags : Phrase := Assigned <| RowOrNothing (Value .tagValue .text)

/-- `name("text")` or `show`. -/
inductive Attribute : Statement
  | name (s : String) :
      Attribute [.keyword .name, .punct .parenStart, .str s, .punct .parenEnd]
        ⟨.attrName, .leaf (.str s)⟩
  | shown : Attribute [.keyword .shown] ⟨.attrShow, .leaf (.bool true)⟩

/-- A phrase in front of which attributes may stand in brackets. -/
inductive Attributed (P : Phrase) : Phrase
  | without {ts items} (h : P ts items) : Attributed P ts items
  | behind {us ts attributes items} (ha : Row Attribute .arrayEnd us attributes) (h : P ts items) :
      Attributed P (.punct .arrayStart :: us ++ ts)
        (⟨.attributes, .node (.declaring .attributes attributes)⟩ :: items)

def variationOption : Phrase := Attributed <| Single (Value .variationValue .count)

def variation : Phrase :=
  Attributed <| Optional (.keyword .variation) <| Named <| Assigned <|
    RowOrNothing (Block .variationOption .variationOption variationOption)

def variations : Phrase := Assigned <| Body (Block .variation .variation variation)

/-- The name and the body of a shader or a mixin. -/
def shader : Phrase :=
  Named <| Braced <| Body <| OneOf <|
    [Assignment .featureSet .featureSet .word,
     Keyed .mixin (Value .included .word),
     Keyed .tags (Block .tags .tags tags),
     Keyed .variations (Block .variations .variations variations),
     Keyed .pass (Block .pass .pass pass)] ++ states

/-- The name and the captured text of a sub-shader. -/
def subShader : Phrase := Named <| Single (Value .index .block)

/-- What may stand at the top. -/
def top : Statement :=
  OneOf
    [Keyed .options (Block .options .options options),
     Keyed .shader (Block .shader .shader shader),
     Keyed .mixin (Block .mixin .mixin shader),
     Keyed .subShader (Block .subShader .subShader subShader)]

/-- Blocks with semicolons anywhere between them, to the end of the tokens. -/
inductive Root : Phrase
  | done : Root [] []
  | semicolon {ts items} (h : Root ts items) : Root (.punct .break :: ts) items
  | block {ts us i items} (h : top ts i) (hs : Root us items) : Root (ts ++ us) (i :: items)

end Sentence

/-- A row of tokens is a description, and this is its tree. -/
def Sentence (ts : List Token) (t : Tree) : Prop :=
  ∃ items, Sentence.Root ts items ∧ t = .declaring .root items

end ShaderLang
