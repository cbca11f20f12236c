import ShaderLang.Source.Define
/-!
# Conditionals

Parts of a source that are read only under a condition on the defines. A conditional has several
branches of which at most one is read.

## Main definitions

* `Condition` — a test of a name, and `Condition.ofText?`, which reads one
* `Conditional` — an open conditional
* `Conditionals` — the stack of open conditionals, innermost first
* `Conditionals.isEnabled` — whether text is read at this point
-/

namespace ShaderLang

/-- How a name is tested. -/
inductive Test
  | defined | notDefined | enabled | notEnabled
  | eq | ne | lt | le | gt | ge
  deriving DecidableEq, Inhabited

/-- The comparison that a mark stands for. -/
def Test.ofSymbol? : String → Option Test
  | "==" => some eq
  | "!=" => some ne
  | "<" => some lt
  | "<=" => some le
  | ">" => some gt
  | ">=" => some ge
  | _ => none

/-- A test of a name; the comparisons have a value on their right. -/
structure Condition where
  name : String
  test : Test
  value : Int
  deriving DecidableEq, Inhabited

namespace Condition

/-- The number on the left: the name itself if it writes one, else what it is defined as, else
zero. -/
def left (c : Condition) (ds : Defines) : Int :=
  ((Number.expression? c.name.toList).or (ds.number? c.name)).getD 0

/-- The condition holds. -/
def holds (c : Condition) (ds : Defines) : Bool :=
  match c.test with
  | .defined => ds.has c.name
  | .notDefined => !ds.has c.name
  | .enabled => c.left ds != 0
  | .notEnabled => c.left ds == 0
  | .eq => c.left ds == c.value
  | .ne => c.left ds != c.value
  | .lt => c.left ds < c.value
  | .le => c.left ds ≤ c.value
  | .gt => c.left ds > c.value
  | .ge => c.left ds ≥ c.value

/-- What `defined` tests, if the text is a use of it: a parenthesis must follow. -/
def definedOperand? (expr : List Char) : Option (List Char) := do
  let operand ← Text.dropPrefix? "defined".toList expr
  if (Text.trimStart operand).head? = some '(' then
    let inner := (Text.trim operand).dropWhile (· == '(')
    some (Text.trim (inner.reverse.dropWhile (· == ')')).reverse)
  else none

/-- A comparison `op value` of a name. -/
def comparison? (name : String) (text : List Char) : Option Condition := do
  let isMark := fun c => c == '=' || c == '!' || c == '<' || c == '>'
  let test ← Test.ofSymbol? (String.ofList (text.takeWhile isMark))
  let value ← Number.expression? (text.dropWhile isMark)
  some ⟨name, test, value⟩

/-- Reads `NAME`, `!NAME`, `defined(NAME)`, `!defined(NAME)` or `NAME op NUMBER`. -/
def ofText? (text : List Char) : Option Condition :=
  let trimmed := Text.trim text
  let negated := trimmed.head? == some '!'
  let expr := if negated then Text.trimStart trimmed.tail else trimmed
  match definedOperand? expr with
  | some name =>
    if Text.isName name then
      some ⟨String.ofList name, if negated then .notDefined else .defined, 0⟩
    else none
  | none =>
    let name := expr.takeWhile Text.isNameChar
    let rest := Text.trim (expr.dropWhile Text.isNameChar)
    if name.isEmpty then none
    else if rest.isEmpty then
      some ⟨String.ofList name, if negated then .notEnabled else .enabled, 0⟩
    else if negated then none
    else comparison? (String.ofList name) rest

end Condition

/-- An open conditional: the condition of its current branch, whether that branch is read, whether
the text around the conditional is, and whether a branch has been chosen already. -/
structure Conditional where
  condition : Condition
  enabled : Bool
  parentEnabled : Bool
  taken : Bool
  deriving DecidableEq, Inhabited

/-- The branch is read if its condition holds and no earlier branch was chosen. -/
def Conditional.evaluate (c : Conditional) (ds : Defines) : Conditional :=
  let result := c.condition.holds ds
  { c with enabled := !c.taken && result, taken := c.taken || result }

/-- The last branch is read if no earlier one was chosen. -/
def Conditional.switch (c : Conditional) : Conditional :=
  { c with enabled := !c.taken, taken := true }

/-- The open conditionals, innermost first. -/
abbrev Conditionals := List Conditional

namespace Conditionals

/-- Text is read unless the innermost conditional forbids it; that one knows of those around. -/
def isEnabled : Conditionals → Bool
  | [] => true
  | c :: _ => c.enabled && c.parentEnabled

/-- Opens a conditional that no branch of is chosen in yet. -/
def push (cs : Conditionals) (condition : Condition) : Conditionals :=
  ⟨condition, false, cs.isEnabled, false⟩ :: cs

/-- Changes the innermost conditional, if there is one. -/
def update (cs : Conditionals) (f : Conditional → Conditional) : Conditionals :=
  match cs with
  | [] => []
  | c :: cs => f c :: cs

/-- Opens a conditional with its first branch. -/
def enter (cs : Conditionals) (condition : Condition) (ds : Defines) : Conditionals :=
  (cs.push condition).update (·.evaluate ds)

/-- Goes on to a branch with a condition. -/
def next (cs : Conditionals) (condition : Condition) (ds : Defines) : Conditionals :=
  cs.update fun c => { c with condition }.evaluate ds

/-- Goes on to the last branch. -/
def last (cs : Conditionals) : Conditionals := cs.update Conditional.switch

@[simp] theorem isEnabled_nil : isEnabled [] = true := rfl

end Conditionals
end ShaderLang
