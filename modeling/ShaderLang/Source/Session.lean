import ShaderLang.Fault
import ShaderLang.Source.Frame
import ShaderLang.Source.Conditional
/-!
# Sessions

What reading a source keeps: the texts under reading, the files entered, the defines, the open
conditionals and the blocks captured verbatim.

## Main definitions

* `CodeBlock` — a block captured verbatim, led by the defines at its start
* `Journal` — all that a session keeps apart from its texts
* `Session` — a journal and a stack of texts, innermost first
* `Journal.enter` — goes into an included file, at most `includeLimit` deep

## Main results

* `Journal.enter_eq_ok` — exactly when a file is entered
-/

namespace ShaderLang

/-- How many included files may be open inside one another. -/
def includeLimit : Nat := 64

/-- The texts of the files that can be included, by name. -/
abbrev Includes := String → Option String

/-- What a block captured verbatim is for: program code, or the text of a sub-shader. -/
inductive BlockKind
  | code | subShader
  deriving DecidableEq, Inhabited

/-- A block captured verbatim, with its number among the blocks of its kind. -/
structure CodeBlock where
  kind : BlockKind
  index : Nat
  text : String
  deriving DecidableEq, Inhabited

/-- All that a session keeps apart from its texts. -/
structure Journal where
  /-- The files entered, each once, in order of first entry. -/
  files : List String
  /-- How often a file was entered. -/
  pushes : Nat
  /-- How often a text was left for the one below it. -/
  pops : Nat
  defines : Defines
  conditionals : Conditionals
  blocks : List CodeBlock
  deriving Inhabited

namespace Journal

/-- Nothing has happened yet. -/
def empty : Journal := ⟨[], 0, 0, [], [], []⟩

/-- Text is read at this point. -/
def isEnabled (j : Journal) : Bool := j.conditionals.isEnabled

/-- Some conditional is open. -/
def hasConditional (j : Journal) : Bool := !j.conditionals.isEmpty

/-- Records a file; one that was entered before keeps its position. -/
def noteFile (files : List String) (name : String) : List String :=
  if name ∈ files then files else files ++ [name]

/-- Goes into a file from a text that lies `depth` deep. The depth is looked at first. -/
def enter (j : Journal) (includes : Includes) (depth : Nat) (name : String) :
    Except Cause (Journal × Frame) :=
  if includeLimit ≤ depth then .error (.includeDepth name)
  else match includes name with
    | none => .error (.includeNotFound name)
    | some text =>
      .ok ({ j with files := noteFile j.files name, pushes := j.pushes + 1 },
        Frame.ofText (some name) text)

/-- A text is left for the one below it. -/
def leave (j : Journal) : Journal := { j with pops := j.pops + 1 }

/-- The blocks of one kind are counted from zero. -/
def nextIndex (j : Journal) (kind : BlockKind) : Nat := j.blocks.countP (·.kind == kind)

/-- Opens a block: its text starts with the defines. -/
def beginBlock (j : Journal) (kind : BlockKind) : Journal :=
  { j with blocks := j.blocks ++ [⟨kind, j.nextIndex kind, j.defines.lines⟩] }

/-- Adds text to the first block of a kind. -/
def appendFirst (kind : BlockKind) (text : String) : List CodeBlock → List CodeBlock
  | [] => []
  | b :: bs =>
    if b.kind = kind then { b with text := b.text ++ text } :: bs
    else b :: appendFirst kind text bs

/-- Adds text to the last block of a kind. -/
def appendBlock (j : Journal) (kind : BlockKind) (text : String) : Journal :=
  { j with blocks := (appendFirst kind text j.blocks.reverse).reverse }

theorem enter_eq_ok {j j' : Journal} {includes : Includes} {depth : Nat} {name : String}
    {f : Frame} :
    j.enter includes depth name = .ok (j', f) ↔
      depth < includeLimit ∧ ∃ text, includes name = some text ∧
        j' = { j with files := noteFile j.files name, pushes := j.pushes + 1 } ∧
        f = Frame.ofText (some name) text := by
  unfold enter
  split
  · next h => simp; omega
  · next h =>
    cases includes name with
    | none => simp
    | some text => simp [Nat.lt_of_not_le h, eq_comm]

theorem depth_lt_of_enter {j : Journal} {includes : Includes} {depth : Nat} {name : String}
    {r : Journal × Frame} (h : j.enter includes depth name = .ok r) : depth < includeLimit :=
  (enter_eq_ok.1 h).1

end Journal

/-- A journal and the texts under reading, innermost first. -/
structure Session extends Journal where
  frames : List Frame
  deriving Inhabited

namespace Session

/-- A session without texts. -/
def empty : Session := ⟨.empty, []⟩

/-- Puts a root text on top. -/
def pushRoot (s : Session) (text : String) : Session :=
  { s with frames := Frame.ofText none text :: s.frames }

/-- The number of texts above the lowest one. -/
def depth (s : Session) : Nat := s.frames.length - 1

/-- The file of the innermost text. -/
def file (s : Session) : Option String := s.frames.head?.bind (·.file)

/-- A fault in the innermost text. -/
def fault (s : Session) (line col : Nat) (cause : Cause) : Fault := ⟨s.file, line, col, cause⟩

/-- Goes into a file, at a place of the innermost text. -/
def pushInclude (s : Session) (includes : Includes) (name : String) (line col : Nat) :
    Except Fault Session :=
  match s.toJournal.enter includes s.depth name with
  | .ok (j, f) => .ok ⟨j, f :: s.frames⟩
  | .error cause => .error (s.fault line col cause)

/-- Leaves the innermost text for the one below it, unless there is none. -/
def popInclude? (s : Session) : Option Session :=
  match s.frames with
  | _ :: g :: gs => some ⟨s.toJournal.leave, g :: gs⟩
  | _ => none

/-- Moves the innermost text on by some bytes. -/
def advance (s : Session) : Nat → Session
  | 0 => s
  | n + 1 =>
    match s.frames with
    | [] => s
    | f :: fs => advance { s with frames := f.advance :: fs } n

end Session
end ShaderLang
