import ShaderLang.Fault
import ShaderLang.Number.Integer
import ShaderLang.Tree.Value
/-!
# Literals

Values that are written as one token: truth values, numbers, texts, words, captured blocks and the
named choices.

## Main definitions

* `Choice` — what a word can name
* `Literal` — what a token can be read as
* `Literal.read` — the value of a token, or what is wrong with it
-/

namespace ShaderLang

/-- What a word can name. -/
inductive Choice
  | fillMode | sortMode | cullMode | compareFunc | operand | blendOp | writeMask
  deriving DecidableEq, Inhabited

namespace Choice

/-- What an error calls the choice. -/
def label : Choice → String
  | fillMode => "fill mode"
  | sortMode => "sort mode"
  | cullMode => "cull mode"
  | compareFunc => "compare function"
  | operand => "operand"
  | blendOp => "blend operation"
  | writeMask => "write mask"

/-- The value that a word names. -/
def named? (c : Choice) (word : String) : Option Leaf :=
  match c with
  | fillMode => (choose? FillMode.spellings word).map .fillMode
  | sortMode => (choose? CullAndQueue.spellings word).map .cullAndQueue
  | cullMode => (choose? CullAndQueue.spellings word).map .cullAndQueue
  | compareFunc => (choose? CompareFunc.spellings word).map .compareFunc
  | operand => (choose? Operand.spellings word).map .operand
  | blendOp => (choose? BlendOp.spellings word).map .blendOp
  | writeMask => (colorMask? word).map .colorMask

end Choice

/-- What a token can be read as. -/
inductive Literal
  | bool | int
  /-- A number with or without a point. -/
  | float
  /-- An integer or a truth value, read as an integer. -/
  | count
  | word | text
  /-- The number of a captured block. -/
  | block
  | choice (c : Choice)
  deriving DecidableEq, Inhabited

namespace Literal

/-- The classes of tokens that can be read so, as an error lists them. -/
def expected : Literal → List TokenKind
  | bool => [.bool]
  | int => [.int]
  | float => [.float, .int]
  | count => [.int, .bool]
  | word => [.identifier]
  | text => [.str]
  | block => [.rawBlock]
  | choice .writeMask => [.identifier, .int]
  | choice _ => [.identifier]

/-- Reads a token. An integer as a write mask keeps its last four bits; the number of a block is
kept in 32 bits. -/
def read : Literal → Token → Except Cause Leaf
  | bool, .bool b => .ok (.bool b)
  | int, .int n => .ok (.int n)
  | float, .float x => .ok (.float x)
  | float, .int n => .ok (.float (.ofInt n))
  | count, .int n => .ok (.int n)
  | count, .bool b => .ok (.int (if b then 1 else 0))
  | word, .identifier s => .ok (.str s)
  | text, .str s => .ok (.str s)
  | block, .rawBlock i => .ok (.int (Number.signed32 i))
  | choice .writeMask, .int n => .ok (.colorMask (n % 16).toNat)
  | choice c, .identifier s =>
    match c.named? s with
    | some l => .ok l
    | none => .error (.unknownValue c.label s)
  | l, t => .error (.unexpectedToken t l.expected)

end Literal
end ShaderLang
