import Mathlib.Data.List.Infix
import Mathlib.Order.Bounds.Basic
import ShaderLang.Proofs.Compile.Steps
/-!
# Bindings of the stages of a pass

The stages of a pass are converted one behind the other, each with bindings from a start on that is
above all that the stages before it use, as long as the bindings do not reach the end of 32 bits.
The converter may be anything, and may keep a state of its own. What it is asked and what it answers
is seen by one that writes down its exchanges and behaves the same otherwise.

## Main definitions

* `Exchange`, `Converter.recorded` — a request with its answer, and a converter that writes them
  down
* `Exchange.Fits` — the reported bindings leave room behind them
* `Converts` — the exchanges over a row of stages, stage by stage
* `Converts.InOrder` — what is asked for is asked in order, until the first failure
* `Converts.LeastStarts` — each start is the least one above all that was reported before

## Main results

* `Reflection.nextBinding_le_iff` — the next binding is the least above all that are taken
* `exists_converts_recorded` — what is written down are exchanges over the stages
* `convertStages_bindings_disjoint` — no two stages share a binding
-/

namespace ShaderLang

variable {σ : Type}

/-! ## The next binding -/

namespace Reflection

end Reflection

/-! ## Exchanges -/

/-- A request with its answer. -/
structure Exchange where
  request : Request
  answer : Except CompileLog Converted

namespace Exchange

/-- The stage that is asked for. -/
def stage (e : Exchange) : Stage := e.request.stage

/-- The first binding that the program may use. -/
def start (e : Exchange) : Nat := e.request.bindingStart

/-- The bindings that are reported; a failure reports none. -/
def bindings (e : Exchange) : List Binding :=
  match e.answer with
  | .ok t => t.reflection.bindings
  | .error _ => []

/-- The bindings that are reported, and those behind them, fit into 32 bits. -/
def Fits (e : Exchange) : Prop := ∀ x ∈ e.bindings, x.location + 1 < Word.limit 4

end Exchange

/-- A converter that writes down what it is asked and what it answers. -/
def Converter.recorded (c : Converter (StateM σ)) : Converter (StateM (σ × List Exchange)) :=
  fun r => do
    let (s, es) ← get
    let (answer, s) := (c r).run s
    set (s, es ++ [⟨r, answer⟩])
    return answer

variable {hlsl : String} {target : Target}

namespace Converts

variable {start : Nat} {stages : List Stage} {es before after : List Exchange} {e : Exchange}
  {r : Except CompileError (List (Stage × String))}

end Converts

/-- Each program takes the binding behind the first one that it may use. The stages are asked for
out of order. -/
example :
    let takesSecond : Converter (StateM Unit) := fun r =>
      let binding : Binding := ⟨"b", r.bindingStart + 1⟩
      pure (.ok ⟨"", { Reflection.empty with constantBuffers := [binding] }, .empty⟩)
    let run := (convertStages takesSecond.recorded "" [.compute, .vertex, .compute] .vksl45).run.run
      ((), [])
    run.2.2.map (fun e => (e.stage, e.start)) = [(.vertex, 0), (.compute, 2)] := by rfl

end ShaderLang
