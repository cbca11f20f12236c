import ShaderLang.Text.Letters
import ShaderLang.Number.Integer
/-!
# Defines

The names that a source tests and changes while it is read. A name has an expression or none; the
table keeps the order in which names first came up.

## Main definitions

* `Define`, `Defines` — a name with its expression, and the table of them
* `Defines.define`, `Defines.undefine`
* `Defines.number?` — the number that a name stands for
* `Number.expression?` — the number that an expression writes

## Main results

* `Defines.has_define`, `Defines.has_undefine` — what a change does to the names
-/

namespace ShaderLang

/-- The number that an expression writes: a 64-bit decimal, or hexadecimal after `0x`. A sign
stands behind the `0x`. -/
def Number.expression? (text : List Char) : Option Int :=
  match Text.trim text with
  | '0' :: 'x' :: cs => Number.read64 16 cs
  | '0' :: 'X' :: cs => Number.read64 16 cs
  | cs => Number.read64 10 cs

/-- A defined name. -/
structure Define where
  name : String
  expr : Option String
  deriving DecidableEq, Inhabited

/-- The defined names, in the order in which they first came up. -/
abbrev Defines := List Define

namespace Defines

/-- The name is defined. -/
def has (ds : Defines) (name : String) : Bool := ds.any (·.name == name)

/-- An expression without outer blanks; a blank one is none. -/
def normal (expr : Option String) : Option String :=
  (expr.map Text.trimmed).filter (!·.isEmpty)

/-- Gives a name an expression. A name that is defined already keeps its position. -/
def define (ds : Defines) (name : String) (expr : Option String) : Defines :=
  if ds.has name then
    ds.map fun d => if d.name = name then { d with expr := normal expr } else d
  else ds ++ [⟨name, normal expr⟩]

/-- Removes a name. -/
def undefine (ds : Defines) (name : String) : Defines := ds.filter (·.name != name)

/-- The number that a name stands for, if its expression writes one. -/
def number? (ds : Defines) (name : String) : Option Int := do
  let d ← ds.find? (·.name == name)
  let expr ← d.expr
  Number.expression? expr.toList

/-- The name stands for a number other than zero. -/
def isOn (ds : Defines) (name : String) : Bool :=
  match ds.number? name with
  | some n => n != 0
  | none => false

/-- The lines that define the names again. -/
def lines (ds : Defines) : String :=
  String.join <| ds.map fun d =>
    match d.expr with
    | some expr => "#define " ++ d.name ++ " " ++ expr ++ "\n"
    | none => "#define " ++ d.name ++ "\n"

theorem has_undefine (ds : Defines) (name other : String) :
    (ds.undefine name).has other = (ds.has other && other != name) := by
  induction ds with
  | nil => rfl
  | cons d ds ih =>
    simp only [has, undefine, List.filter_cons, List.any_cons] at *
    split <;> grind

theorem has_define (ds : Defines) (name other : String) (expr : Option String) :
    (ds.define name expr).has other = (ds.has other || other == name) := by
  unfold define
  split
  · next h =>
    simp only [has, List.any_map] at *
    have hname : ∀ d : Define,
        (if d.name = name then { d with expr := normal expr } else d).name = d.name := by grind
    simp only [Function.comp_def, hname]
    by_cases ho : other = name
    · simp [ho, h]
    · simp [ho]
  · simp only [has, List.any_append, List.any_cons, List.any_nil, Bool.or_false]
    grind

end Defines
end ShaderLang
