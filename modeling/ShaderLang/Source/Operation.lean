import ShaderLang.Source.Session
/-!
# Operations on defines and conditionals

The single steps in which directives change what a session keeps: a name is defined or removed, a
conditional is opened or closed, the condition of the innermost one is set part by part, and a
branch of it is evaluated or switched to.

## Main definitions

* `Operation` — the steps
* `Journal.operate` — what a step does to a journal
-/

namespace ShaderLang

/-- One step on the defines or on the open conditionals. -/
inductive Operation
  | define (name : String) (expr : Option String)
  | undefine (name : String)
  /-- Opens a conditional; with a name, its first branch is for that name being defined. -/
  | push (name? : Option String)
  /-- Sets the name that the innermost conditional tests, for a number other than zero. -/
  | setName (name : String)
  | setTest (test : Test)
  | setValue (value : Int)
  /-- Goes on to a branch under the condition that has been set. -/
  | evaluate
  /-- Goes on to the last branch. -/
  | switch
  | pop
  deriving DecidableEq, Inhabited

/-- What a step does to the innermost conditional, where some names are defined. -/
def Conditional.operate (c : Conditional) (ds : Defines) : Operation → Conditional
  | .setName name => { c with condition := ⟨name, .enabled, 0⟩ }
  | .setTest test => { c with condition.test := test }
  | .setValue value => { c with condition.value := value }
  | .evaluate => c.evaluate ds
  | .switch => c.switch
  | _ => c

/-- What a step does to the open conditionals, where some names are defined. -/
def Conditionals.operate (cs : Conditionals) (ds : Defines) : Operation → Conditionals
  | .push none => cs.push ⟨"", .defined, 0⟩
  | .push (some name) => cs.enter ⟨name, .defined, 0⟩ ds
  | .pop => cs.tail
  | op => cs.update (·.operate ds op)

/-- What a step does to the defines. -/
def Defines.operate (ds : Defines) : Operation → Defines
  | .define name expr => ds.define name expr
  | .undefine name => ds.undefine name
  | _ => ds

/-- What a step does to a journal. -/
def Journal.operate (j : Journal) (op : Operation) : Journal :=
  { j with
    defines := j.defines.operate op
    conditionals := j.conditionals.operate j.defines op }

end ShaderLang
