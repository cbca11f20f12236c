import ShaderLang.Number.Integer
import ShaderLang.Reflection
import ShaderLang.Text.Letters
import ShaderLang.Text.Sweep
/-!
# Declarations

The declarations of a program text: what stands before a name, the name, and the array size, the
register, the initializer and the block behind it. Functions and attributes are found likewise.

## Main definitions

* `Hlsl.Declared` — a declaration, and `Hlsl.declarations`, which finds them
* `Hlsl.Attributes` — what the attributes before a declaration say
* `Hlsl.functions` — the names of the functions
* `Hlsl.uncommented` — a text without comments and directives
-/

namespace ShaderLang.Hlsl

open Pattern

/-- A comment, to the end of its line or to its closing mark. -/
def comment : Pattern :=
  alt (seqs [lit "//", inLine])
    (seqs [lit "/*", lazyRun (fun _ => true), lit "*/"])

/-- A line that starts with a number sign. -/
def directiveLine : Pattern :=
  seqs [lineStart, run (fun c => c == ' ' || c == '\t'), lit "#", inLine, lineEnd]

/-- A text without comments and directives. A comment leaves a space. -/
def uncommented (text : List Char) : List Char :=
  directiveLine.replace (fun _ => []) (comment.replace (fun _ => [' ']) text)

/-- The arguments of a type, which may be missing. -/
def typeArguments : Pattern :=
  opt (seqs [blanks, lit "<", run (· != '>'), lit ">"])

/-- The head of a function, up to its opening brace. -/
def functionHead : Pattern :=
  seqs [wordBoundary, ident, typeArguments, blanks1, group "name" ident, blanks,
    lit "(", run (fun c => c != ';' && c != '\x7b'), lit ")", blanks,
    opt (seqs [lit ":", blanks, run1 Text.isWord, blanks]), lit "\x7b"]

/-- The names of the functions of a text. -/
def functions (text : List Char) : List String :=
  (functionHead.findAll text).map fun m => String.ofList (m.get "name")

/-- The words that can stand before a type. -/
def qualifiers : List String :=
  ["static", "const", "uniform", "extern", "volatile", "groupshared", "row_major", "column_major"]

/-- A declaration, up to its semicolon or its closing brace. -/
def declaration : Pattern :=
  seqs
    [group "attributes" <| many false <|
      seqs [lit "[", run (fun c => c != '[' && c != ']'), lit "]", blanks],
     group "qualifiers" (many false (seq (alts (qualifiers.map lit)) blanks1)),
     group "type" ident, typeArguments, blanks1, group "name" ident, blanks,
     opt (seqs [lit "[", blanks, group "array" (run1 Text.isDigit), blanks, lit "]", blanks]),
     opt (seqs [lit ":", blanks, lit "register", blanks, lit "(", blanks, one Char.isLower,
       group "slot" (run1 Text.isDigit), blanks, lit ")", blanks]),
     opt (seqs [lit "=", blanks,
       group "initializer" (lazyRun1 fun c => c != ';' && c != '\x7b' && c != '\x7d'), blanks]),
     alt
      (seqs [group "block" (seqs [lit "\x7b", run (fun c => c != '\x7b' && c != '\x7d'),
        lit "\x7d"]), blanks, opt (lit ";")])
      (lit ";")]

/-- A declaration. -/
structure Declared where
  attributes : List Char
  qualifiers : List Char
  type : String
  name : String
  arraySize : Nat
  slot? : Option Nat
  initializer? : Option (List Char)
  /-- The text inside the braces, by its offsets. -/
  block? : Option (Nat × Nat)

/-- A number that fits 32 bits without a sign. -/
def word32? (cs : List Char) : Option Nat := Number.unsigned? 4294967295 cs

/-- The declaration of a match. An array size that does not fit counts as one, and a register that
does not fit as none. -/
def Declared.ofMatch (m : Match) : Declared where
  attributes := m.get "attributes"
  qualifiers := m.get "qualifiers"
  type := String.ofList (m.get "type")
  name := String.ofList (m.get "name")
  arraySize := ((m.get? "array").bind word32?).getD 1
  slot? := (m.get? "slot").bind word32?
  initializer? := m.get? "initializer"
  block? := (m.span? "block").map fun s => (s.start + 1, s.stop - 1)

/-- The declarations of a text. -/
def declarations (text : List Char) : List Declared :=
  (declaration.findAll text).map Declared.ofMatch

/-- The text has a word somewhere. -/
def mentions (word text : List Char) : Bool :=
  match text with
  | [] => word.isEmpty
  | c :: cs => (Text.dropPrefix? word (c :: cs)).isSome || mentions word cs

/-- The declaration is of something that lives inside the program only. -/
def Declared.isLocal (d : Declared) : Bool :=
  mentions "static".toList d.qualifiers || mentions "groupshared".toList d.qualifiers

/-- An attribute with its argument. -/
def anyAttribute : Pattern :=
  seqs [lit "[", blanks, group "name" ident, blanks,
    opt (seqs [lit "(", blanks, opt (lit "\""),
      group "argument" (lazyRun fun c => c != '"' && c != ')'),
      opt (lit "\""), blanks, lit ")"]),
    blanks, lit "]"]

/-- What the attributes before a declaration say. -/
structure Attributes where
  marks : Marks
  shownName : String
  spriteUV : String
  secondName : String

namespace Attributes

/-- Nothing is said. -/
def none : Attributes := ⟨.none, "", "", ""⟩

/-- One more attribute; unknown ones say nothing. -/
def add (a : Attributes) (m : Match) : Attributes :=
  let argument := String.ofList (Text.trim (m.get "argument"))
  match Text.small (String.ofList (m.get "name")) with
  | "internal" => { a with marks.internal := true }
  | "color" => { a with marks.color := true }
  | "hideininspector" => { a with marks.hidden := true }
  | "hdr" => { a with marks.hdr := true }
  | "name" => { a with shownName := argument }
  | "spriteuv" => { a with spriteUV := argument }
  | "alias" => { a with secondName := argument }
  | _ => a

/-- What the attributes of a text say; the last of a kind counts. -/
def ofText (text : List Char) : Attributes := (anyAttribute.findAll text).foldl add none

end Attributes
end ShaderLang.Hlsl
