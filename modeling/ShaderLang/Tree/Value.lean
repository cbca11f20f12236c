import ShaderLang.Number.Binary32
import ShaderLang.Tree.Choice
/-!
# Settings

What a statement of a source sets: a kind of setting and a value. The values that stand for nested
blocks are left open here, so that a node can hold its children themselves or refer to them.

## Main definitions

* `NodeKind`, `SettingKind` — the kinds of blocks and of settings
* `Leaf`, `Value` — a plain value, and one that may be a nested block
* `Setting`, `Entry` — a setting, and a block with its settings
* `Entry.find?`, `Entry.declared` — the last value written, and all settings as written
-/

namespace ShaderLang

/-- The kinds of blocks. -/
inductive NodeKind
  | root | options | shader | mixin | subShader | pass | blend | raster | depth | stencil | target
  | stencilOp | blendDef | tags | code | variations | variation | variationOption | attributes
  deriving DecidableEq, Inhabited

/-- The kinds of settings. -/
inductive SettingKind
  | options | shader | mixin | subShader
  | separable | sort | priority | transparent | forward
  | identifier | included | featureSet | tags | tagValue | variations | variation
  | variationOption | variationValue | attributes | attrName | attrShow | pass | code | index
  | blend | raster | depth | stencil
  | fillMode | cullMode | depthBias | slopeScaledDepthBias | depthClip | scissor | multisample
  | lineAntialiasing
  | depthRead | depthWrite | compareFunc
  | stencilEnabled | stencilReadMask | stencilWriteMask | stencilOpFront | stencilOpBack
  | stencilRef | fail | depthFail | passOp
  | alphaToCoverage | independentBlend | target | enabled | color | alpha | source | destination
  | operation | writeMask
  deriving DecidableEq, Inhabited

/-- A value that holds no block. -/
inductive Leaf
  | int (n : Int)
  | float (x : Binary32)
  | bool (b : Bool)
  | str (s : String)
  | fillMode (m : FillMode)
  | cullAndQueue (m : CullAndQueue)
  | compareFunc (f : CompareFunc)
  | operand (o : Operand)
  | blendOp (o : BlendOp)
  | colorMask (mask : Nat)
  deriving DecidableEq, Inhabited

/-- The value of a setting; `ν` stands for nested blocks. -/
inductive Value (ν : Type)
  | leaf (l : Leaf)
  | node (n : ν)
  deriving DecidableEq, Inhabited

namespace Value

variable {ν : Type}

/-- The value as an integer. -/
def int? : Value ν → Option Int
  | leaf (.int n) => some n
  | leaf (.bool b) => some (if b then 1 else 0)
  | leaf (.colorMask mask) => some mask
  | _ => none

/-- The value as a single precision number. -/
def float? : Value ν → Option Binary32
  | leaf (.float x) => some x
  | leaf (.int n) => some (.ofInt n)
  | _ => none

/-- The value as a truth value; a positive integer is true. -/
def bool? : Value ν → Option Bool
  | leaf (.bool b) => some b
  | leaf (.int n) => some (0 < n)
  | _ => none

def str? : Value ν → Option String
  | leaf (.str s) => some s
  | _ => none

def node? : Value ν → Option ν
  | node n => some n
  | _ => none

end Value

/-- A kind of setting with its value. -/
structure Setting (ν : Type) where
  kind : SettingKind
  value : Value ν
  deriving DecidableEq, Inhabited

/-- A block with its settings. They are stored with those of the header first and then those of
the body from the last to the first, so that the first one of a kind is the last one written. -/
structure Entry (ν : Type) where
  kind : NodeKind
  settings : List (Setting ν)
  deriving DecidableEq, Inhabited

namespace Entry

variable {ν : Type}

/-- A block of a kind, from the settings of its header and its body as they are written. -/
def ofParts (kind : NodeKind) (header body : List (Setting ν)) : Entry ν :=
  ⟨kind, header ++ body.reverse⟩

/-- The settings in the order in which those of the body are written. -/
def declared (e : Entry ν) : List (Setting ν) := e.settings.reverse

/-- The first stored value of a kind. -/
def find? (e : Entry ν) (kind : SettingKind) : Option (Value ν) :=
  (e.settings.find? (·.kind = kind)).map (·.value)

/-- The name in the header. -/
def identifier? (e : Entry ν) : Option String := (e.find? .identifier).bind Value.str?

/-- The nested blocks with the kinds of their settings, as stored. -/
def children (e : Entry ν) : List (SettingKind × ν) :=
  e.settings.filterMap fun s => s.value.node?.map (s.kind, ·)

end Entry
end ShaderLang
