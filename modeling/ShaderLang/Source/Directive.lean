import ShaderLang.Source.Session
/-!
# Directives

Lines that start with a number sign: they open and close conditionals, include files and change the
defines. The directives on conditionals are obeyed everywhere, the others only where text is read.

## Main definitions

* `Directive` — the known directives
* `Directive.split` — the directive of a line and what follows it
* `Directive.obey` — what a directive does to a journal

## Main results

* `Directive.depth_lt_of_entered` — a file is entered only below the greatest depth
-/

namespace ShaderLang

/-- The known directives. -/
inductive Directive
  | ifDefined | ifNotDefined | ifHolds | elseIf | otherwise | endIf
  | include | define | undefine
  deriving DecidableEq, Inhabited

namespace Directive

/-- How a directive is written behind the number sign. -/
def spelling : Directive → String
  | ifDefined => "ifdef"
  | ifNotDefined => "ifndef"
  | ifHolds => "if"
  | elseIf => "elif"
  | otherwise => "else"
  | endIf => "endif"
  | «include» => "include"
  | define => "define"
  | undefine => "undef"

/-- Every directive. -/
def all : List Directive :=
  [.ifDefined, .ifNotDefined, .ifHolds, .elseIf, .otherwise, .endIf, .include, .define, .undefine]

/-- The directive that is written so. -/
def ofSpelling? (word : String) : Option Directive := all.find? (·.spelling == word)

theorem ofSpelling?_spelling (d : Directive) : ofSpelling? d.spelling = some d := by
  cases d <;> decide +kernel

/-- A line up to its comment. Quotes do not protect two slashes. -/
def uncommented : List Char → List Char
  | '/' :: '/' :: _ => []
  | c :: cs => c :: uncommented cs
  | [] => []

/-- The text between a pair of marks. -/
def between? (first last : Char) (cs : List Char) : Option (List Char) :=
  (Text.dropPrefix? [first] cs).bind fun inner => Text.dropSuffix? [last] inner

/-- The file that is named in quotes or angle brackets. -/
def fileName? (rest : List Char) : Option String :=
  (((between? '"' '"' rest).or (between? '<' '>' rest)).filter (!·.isEmpty)).map String.ofList

/-- What a directive did: the journal it left, and a file that it entered or its fault. -/
inductive Effect
  | went (j : Journal)
  | entered (j : Journal) (child : Frame)
  | refused (j : Journal) (cause : Cause)

/-- Opens a conditional on whether a name is defined. -/
def openNamed (j : Journal) (test : Test) (text rest : List Char) : Effect :=
  if Text.isName rest then
    let condition := ⟨String.ofList rest, test, 0⟩
    .went { j with conditionals := j.conditionals.enter condition j.defines }
  else .refused j (.invalidDirective (String.ofList text))

/-- Opens a conditional on a condition. It is open also when the condition cannot be read. -/
def openCondition (j : Journal) (rest : List Char) : Effect :=
  match Condition.ofText? rest with
  | some condition =>
    .went { j with conditionals := j.conditionals.enter condition j.defines }
  | none =>
    .refused { j with conditionals := j.conditionals.push ⟨"", .defined, 0⟩ }
      (.invalidDirective (String.ofList rest))

/-- Goes on to another branch. -/
def continueWith (j : Journal) (rest : List Char) : Effect :=
  match Condition.ofText? rest with
  | some condition =>
    .went { j with conditionals := j.conditionals.next condition j.defines }
  | none => .refused j (.invalidDirective (String.ofList rest))

/-- Obeys a directive that needs an open conditional. -/
def needsOpen (j : Journal) (d : Directive) (act : Unit → Effect) : Effect :=
  if j.hasConditional then act () else .refused j (.unmatchedConditional d.spelling)

/-- Obeys a directive at depth `depth`. The whole text of the line is kept for faults, save that a
condition is reported without its directive. -/
def obey (includes : Includes) (depth : Nat) (j : Journal) (text : List Char) : Effect :=
  let (word, rest) := Text.splitWord text
  let invalid := Effect.refused j (.invalidDirective (String.ofList text))
  match ofSpelling? (String.ofList word) with
  | some ifDefined => openNamed j .defined text rest
  | some ifNotDefined => openNamed j .notDefined text rest
  | some ifHolds => openCondition j rest
  | some elseIf => needsOpen j .elseIf fun _ => continueWith j rest
  | some otherwise =>
    needsOpen j .otherwise fun _ => .went { j with conditionals := j.conditionals.last }
  | some endIf => needsOpen j .endIf fun _ => .went { j with conditionals := j.conditionals.tail }
  | some «include» =>
    if !j.isEnabled then .went j
    else match fileName? rest with
      | none => invalid
      | some name =>
        match j.enter includes depth name with
        | .ok (j', child) => .entered j' child
        | .error cause => .refused j cause
  | some define =>
    if !j.isEnabled then .went j
    else
      let (name, expr) := Text.splitWord rest
      if Text.isName name then
        .went
          { j with defines := j.defines.define (String.ofList name) (some (String.ofList expr)) }
      else invalid
  | some undefine =>
    if !j.isEnabled then .went j
    else if Text.isName rest then
      .went { j with defines := j.defines.undefine (String.ofList rest) }
    else invalid
  | none => if !j.isEnabled then .went j else invalid

/-! ## Only an inclusion enters a file -/

theorem openNamed_ne_entered {j j' : Journal} {test : Test} {text rest : List Char}
    {child : Frame} : openNamed j test text rest ≠ .entered j' child := by
  unfold openNamed
  split <;> simp

theorem openCondition_ne_entered {j j' : Journal} {rest : List Char} {child : Frame} :
    openCondition j rest ≠ .entered j' child := by
  unfold openCondition
  split <;> simp

theorem continueWith_ne_entered {j j' : Journal} {rest : List Char} {child : Frame} :
    continueWith j rest ≠ .entered j' child := by
  unfold continueWith
  split <;> simp

theorem needsOpen_ne_entered {j j' : Journal} {d : Directive} {act : Unit → Effect}
    {child : Frame} (h : act () ≠ .entered j' child) : needsOpen j d act ≠ .entered j' child := by
  unfold needsOpen
  split
  · exact h
  · simp

/-- A file is entered only below the greatest depth. -/
theorem depth_lt_of_entered {includes : Includes} {depth : Nat} {j j' : Journal}
    {text : List Char} {child : Frame} (h : obey includes depth j text = .entered j' child) :
    depth < includeLimit := by
  unfold obey at h
  simp only at h
  split at h
  · exact absurd h openNamed_ne_entered
  · exact absurd h openNamed_ne_entered
  · exact absurd h openCondition_ne_entered
  · exact absurd h (needsOpen_ne_entered continueWith_ne_entered)
  · exact absurd h (needsOpen_ne_entered (by simp))
  · exact absurd h (needsOpen_ne_entered (by simp))
  · -- The directive names a file; the journal is asked to enter it.
    split at h
    · cases h
    · split at h
      · cases h
      · split at h
        · next henter => exact Journal.depth_lt_of_enter henter
        · cases h
  · split at h
    · cases h
    · split at h <;> cases h
  · split at h
    · cases h
    · split at h <;> cases h
  · split at h <;> cases h

end Directive
end ShaderLang
