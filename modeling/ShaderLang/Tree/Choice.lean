import ShaderLang.Text.Letters
/-!
# Named choices

The words that stand on the right of an assignment: fill and cull modes, comparisons, blend factors
and stencil operations, blend equations, and the color channels of a write mask. Words are looked
up in any case.

## Main definitions

* `FillMode`, `CullAndQueue`, `CompareFunc`, `Operand`, `BlendOp` — the choices
* `choose?` — a look-up in a table of spellings
* `colorMask?` — the channels that a word names
-/

namespace ShaderLang

inductive FillMode
  | wire | solid
  deriving DecidableEq, Inhabited

/-- Culling and queue sorting share their words. -/
inductive CullAndQueue
  | none | cw | ccw | frontToBack | backToFront
  deriving DecidableEq, Inhabited

inductive CompareFunc
  | never | always | lt | lte | eq | neq | gte | gt
  deriving DecidableEq, Inhabited

/-- A blend factor or a stencil operation. -/
inductive Operand
  | one | zero | dstRgb | srcRgb | dstIRgb | srcIRgb | dstA | srcA | dstIA | srcIA
  | keep | replace | inc | dec | incWrap | decWrap | inverse
  deriving DecidableEq, Inhabited

inductive BlendOp
  | add | sub | rSub | min | max
  deriving DecidableEq, Inhabited

/-- The choice that a word spells, in any case. -/
def choose? {α : Type} (spellings : List (String × α)) (word : String) : Option α :=
  (spellings.find? (·.1 == Text.lower word)).map (·.2)

def FillMode.spellings : List (String × FillMode) := [("wire", .wire), ("solid", .solid)]

def CullAndQueue.spellings : List (String × CullAndQueue) :=
  [("none", .none), ("cw", .cw), ("ccw", .ccw), ("fronttoback", .frontToBack),
   ("backtofront", .backToFront)]

def CompareFunc.spellings : List (String × CompareFunc) :=
  [("never", .never), ("always", .always), ("lt", .lt), ("lte", .lte), ("eq", .eq), ("neq", .neq),
   ("gte", .gte), ("gt", .gt)]

/-- The factors on the channels have a short and a long spelling. -/
def Operand.spellings : List (String × Operand) :=
  [("one", .one), ("zero", .zero), ("dstrgb", .dstRgb), ("srcrgb", .srcRgb),
   ("dstirgb", .dstIRgb), ("srcirgb", .srcIRgb), ("dsta", .dstA), ("srca", .srcA),
   ("dstia", .dstIA), ("srcia", .srcIA), ("dst_color", .dstRgb), ("src_color", .srcRgb),
   ("inv_dst_color", .dstIRgb), ("inv_src_color", .srcIRgb), ("dst_alpha", .dstA),
   ("src_alpha", .srcA), ("inv_dst_alpha", .dstIA), ("inv_src_alpha", .srcIA), ("keep", .keep),
   ("replace", .replace), ("inc", .inc), ("dec", .dec), ("incwrap", .incWrap),
   ("decwrap", .decWrap), ("inverse", .inverse)]

def BlendOp.spellings : List (String × BlendOp) :=
  [("add", .add), ("sub", .sub), ("subtract", .sub), ("rsub", .rSub), ("rev_subtract", .rSub),
   ("min", .min), ("max", .max)]

/-- The bit of a color channel in a write mask. -/
def channelBit? (c : Char) : Option Nat :=
  match c.toLower with
  | 'r' => some 1
  | 'g' => some 2
  | 'b' => some 4
  | 'a' => some 8
  | _ => none

/-- The write mask of a row of channels, in any order and also repeated. -/
def channels? : List Char → Option Nat
  | [] => some 0
  | c :: cs => do
    let bit ← channelBit? c
    let mask ← channels? cs
    some (bit ||| mask)

/-- The write mask that a word names: its channels, or none of them for `empty`. -/
def colorMask? (word : String) : Option Nat :=
  if Text.lower word = "empty" then some 0 else channels? word.toList

end ShaderLang
