import Mathlib.Algebra.Order.Ring.Nat
import Mathlib.Data.List.Monad
import Mathlib.Logic.ExistsUnique
import Mathlib.Order.WellFounded
import ShaderLang.Proofs.Compile.Settled
/-!
# When a compilation ends

A sub-shader is compiled from a registered source, with the text captured in the description behind
it, and may have sub-shaders itself. Nothing keeps a source from bringing in itself again: files
include each other up to a depth, and mixins are inherited from once, but sub-shaders are compiled
however deep they are nested. A compilation that ends does so with sub-shaders up to some depth, and
comes to the same at every greater one. It ends unless it gets from one shader to another without
end.

## Main definitions

* `Compiler.resultTo` — what a shader comes to with sub-shaders up to a depth
* `Compiler.ComesOut`, `Compiler.Ends` — a compilation comes to a result at some depth
* `Compiler.GetsTo`, `Compiler.Needs` — it gets to the compilation of another shader
* `Compiler.selfCompleting` — a registered shader that completes its own extension point

## Main results

* `Compiler.resultTo_of_le` — a greater depth does not change the result
* `Compiler.ends_iff_acc` — a compilation ends just if those that it gets to do, and so on
* `Compiler.compile_ends_iff` — it does unless it gets from shader to shader without end
-/

namespace ShaderLang
namespace Compiler

variable (c : Compiler Id)

/-! ## One level of sub-shaders -/

/-- What a shader comes to with sub-shaders up to a depth. -/
def resultTo (depth : Nat) (p : ExtensionShader) : Except CompileError Shader :=
  result (c.compileTo depth p.name p.source p.defines)

/-- What a shader comes to without its sub-shaders. -/
def ownResult (p : ExtensionShader) : Except CompileError (Document × Catalog × Shader) :=
  result (c.compileOwn p.name p.source p.defines)

/-- The sub-shaders of a slot, from what each shader for it comes to. -/
def fillSlot (sub : ExtensionShader → Except CompileError Shader) (d : Document)
    (slot : SubShaderSlot) : Except CompileError (List SubShader) :=
  (c.completions d slot).bind fun points =>
    points.mapM fun q => (sub q).map (SubShader.ofCompiled q.name)

/-- A shader with its sub-shaders, from what each of them comes to. -/
def withSubShaders (sub : ExtensionShader → Except CompileError Shader) (p : ExtensionShader) :
    Except CompileError Shader :=
  (c.ownResult p).bind fun own =>
    (own.2.1.subShaders.mapM (c.fillSlot sub own.1)).map fun subShaders =>
      { own.2.2 with subShaders := subShaders.flatten }

theorem resultTo_succ (depth : Nat) (p : ExtensionShader) :
    c.resultTo (depth + 1) p = c.withSubShaders (c.resultTo depth) p := by
  rw [resultTo, compileTo_succ, withSubShaders, ownResult, result_bind]
  congr 1
  funext ⟨d, catalog, shader⟩
  simp only [result_bind, result_mapM, result_ofExcept, result_pure]
  rfl

/-- The shaders for a slot could be looked up, and all of them are done. -/
def Fills (Done : ExtensionShader → Prop) (d : Document) (slot : SubShaderSlot) : Prop :=
  ∃ points, c.completions d slot = .ok points ∧ ∀ q ∈ points, Done q

/-- The compilation of a shader gets to that of another one, for one of its slots: all that come
before are done. -/
def GetsTo (Done : ExtensionShader → Prop) (p q : ExtensionShader) : Prop :=
  ∃ own slot points, c.ownResult p = .ok own ∧
    ComesTo (c.Fills Done own.1) own.2.1.subShaders slot ∧
    c.completions own.1 slot = .ok points ∧ ComesTo Done points q

variable {c} {sub sub' : ExtensionShader → Except CompileError Shader} {p q : ExtensionShader}
  {d : Document} {slot : SubShaderSlot} {points : List ExtensionShader} {depth : Nat}

/-- Shaders for a slot are registered for its extension point, and the captured text stands behind
their sources. -/
theorem registered_of_completions (h : c.completions d slot = .ok points) (hq : q ∈ points) :
    ∃ shaders x text, c.extensions slot.name = .ok shaders ∧ x ∈ shaders ∧
      d.code? .subShader slot.block = some text ∧
      q = { x with source := x.source ++ "\n" ++ text } := by
  rw [completions] at h
  split at h
  · cases h
    cases hq
  · next text htext =>
    split at h
    · cases h
    · next shaders hshaders =>
      cases h
      obtain ⟨x, hx, rfl⟩ := List.mem_map.1 hq
      exact ⟨shaders, x, text, hshaders, hx, htext, rfl⟩

theorem settled_completions : Settled (c.completions d slot) := by
  rw [completions]
  split
  · trivial
  · split <;> trivial

theorem settled_fillSlot_iff :
    Settled (c.fillSlot sub d slot) ↔ ∀ points, c.completions d slot = .ok points →
      ∀ q, ComesTo (fun q => ∃ s, sub q = .ok s) points q → Settled (sub q) := by
  simp [fillSlot, settled_bind_iff, settled_completions, settled_mapM_iff, settled_map_iff,
    Outcome.map_eq_ok_iff]

theorem exists_fillSlot_eq_ok_iff :
    (∃ subShaders, c.fillSlot sub d slot = .ok subShaders) ↔
      c.Fills (fun q => ∃ s, sub q = .ok s) d slot := by
  rw [fillSlot, Fills]
  cases c.completions d slot with
  | error e => simp [Except.bind]
  | ok points => simp [Except.bind, Outcome.exists_mapM_eq_ok_iff, Outcome.map_eq_ok_iff]

/-- Sub-shaders are nested too deep just if this is so of one that the compilation gets to. -/
theorem settled_withSubShaders_iff :
    Settled (c.withSubShaders sub p) ↔
      ∀ q, c.GetsTo (fun q => ∃ s, sub q = .ok s) p q → Settled (sub q) := by
  rw [withSubShaders, settled_bind_iff]
  simp only [settled_map_iff, settled_mapM_iff, settled_fillSlot_iff, exists_fillSlot_eq_ok_iff]
  constructor
  · rintro ⟨-, h⟩ q ⟨own, slot, points, hown, hslot, hpoints, hq⟩
    exact h own hown slot hslot points hpoints q hq
  · exact fun h => ⟨settled_compileOwn .., fun own hown slot hslot points hpoints q hq =>
      h q ⟨own, slot, points, hown, hslot, hpoints, hq⟩⟩

theorem fillSlot_congr (h : Settled (c.fillSlot sub d slot))
    (hsub : ∀ q, Settled (sub q) → sub' q = sub q) :
    c.fillSlot sub' d slot = c.fillSlot sub d slot := by
  rw [fillSlot] at h
  rw [fillSlot, fillSlot]
  cases hpoints : c.completions d slot with
  | error e => rfl
  | ok points =>
    refine mapM_congr_of_settled ((settled_bind_iff.1 h).2 points hpoints) fun q hq => ?_
    rw [hsub q (settled_map_iff.1 hq)]

theorem withSubShaders_congr (h : Settled (c.withSubShaders sub p))
    (hsub : ∀ q, Settled (sub q) → sub' q = sub q) :
    c.withSubShaders sub' p = c.withSubShaders sub p := by
  rw [withSubShaders] at h
  rw [withSubShaders, withSubShaders]
  cases hown : c.ownResult p with
  | error e => rfl
  | ok own =>
    have hslots := settled_map_iff.1 ((settled_bind_iff.1 h).2 own hown)
    have heq := mapM_congr_of_settled hslots fun slot hslot => fillSlot_congr hslot hsub
    exact congrArg (Except.map _) heq

/-! ## All levels -/

theorem not_settled_resultTo_zero : ¬ Settled (c.resultTo 0 p) := id

theorem resultTo_succ_of_settled (h : Settled (c.resultTo depth p)) :
    c.resultTo (depth + 1) p = c.resultTo depth p := by
  induction depth generalizing p with
  | zero => exact absurd h not_settled_resultTo_zero
  | succ depth ih =>
    rw [resultTo_succ] at h
    rw [resultTo_succ, resultTo_succ]
    exact withSubShaders_congr h fun q hq => ih hq

/-- Where sub-shaders are not nested too deep, a greater depth changes nothing. -/
theorem resultTo_of_le {deeper : Nat} (h : Settled (c.resultTo depth p)) (hle : depth ≤ deeper) :
    c.resultTo deeper p = c.resultTo depth p := by
  induction deeper, hle using Nat.le_induction with
  | base => rfl
  | succ deeper _ ih =>
    rw [← ih] at h
    rw [resultTo_succ_of_settled h, ih]

theorem resultTo_eq_of_settled {depth' : Nat} (h : Settled (c.resultTo depth p))
    (h' : Settled (c.resultTo depth' p)) : c.resultTo depth p = c.resultTo depth' p := by
  rcases Nat.le_total depth depth' with hle | hle
  · exact (resultTo_of_le h hle).symm
  · exact resultTo_of_le h' hle

variable (c)

/-- The compilation of a shader comes to a result: an error or a shader, with sub-shaders up to
some depth. -/
def ComesOut (p : ExtensionShader) (r : Except CompileError Shader) : Prop :=
  Settled r ∧ ∃ depth, c.resultTo depth p = r

/-- The compilation of a shader ends. -/
def Ends (p : ExtensionShader) : Prop := ∃ r, c.ComesOut p r

/-- The compilation of a shader ends without an error. -/
def Compiles (p : ExtensionShader) : Prop := ∃ s, c.ComesOut p (.ok s)

/-- The compilation of a shader gets to that of another one: all before it end without an error. -/
def Needs (p q : ExtensionShader) : Prop := c.GetsTo c.Compiles p q

variable {c}

theorem ComesOut.unique {r r' : Except CompileError Shader} (h : c.ComesOut p r)
    (h' : c.ComesOut p r') : r = r' := by
  obtain ⟨hr, depth, rfl⟩ := h
  obtain ⟨hr', depth', rfl⟩ := h'
  exact resultTo_eq_of_settled hr hr'

theorem ends_iff : c.Ends p ↔ ∃ depth, Settled (c.resultTo depth p) := by
  constructor
  · rintro ⟨_, h, depth, rfl⟩
    exact ⟨depth, h⟩
  · rintro ⟨depth, h⟩
    exact ⟨_, h, depth, rfl⟩

theorem compiles_of_eq_ok (h : ∃ s, c.resultTo depth p = .ok s) : c.Compiles p := by
  obtain ⟨s, hs⟩ := h
  exact ⟨s, settled_ok s, depth, hs⟩

theorem Compiles.eq_ok (h : c.Compiles p) (hp : Settled (c.resultTo depth p)) :
    ∃ s, c.resultTo depth p = .ok s := by
  obtain ⟨s, hs⟩ := h
  exact ⟨s, ComesOut.unique ⟨hp, depth, rfl⟩ hs⟩

theorem GetsTo.imp {P Q : ExtensionShader → Prop} (h : c.GetsTo P p q) (hPQ : ∀ q, P q → Q q) :
    c.GetsTo Q p q := by
  obtain ⟨own, slot, points, hown, hslot, hpoints, hq⟩ := h
  refine ⟨own, slot, points, hown, hslot.imp ?_, hpoints, hq.imp hPQ⟩
  exact fun slot ⟨points, hpoints, hall⟩ => ⟨points, hpoints, fun q hq => hPQ q (hall q hq)⟩

/-- Shaders are done in two ways alike if this is so of those that a compilation gets to. -/
theorem GetsTo.of_passes {P Q : ExtensionShader → Prop} (h : c.GetsTo P p q)
    (hp : ∀ q, c.GetsTo Q p q → P q → Q q) : c.GetsTo Q p q := by
  obtain ⟨own, slot, points, hown, hslot, hpoints, hq⟩ := h
  -- Within a slot that is come to, the walks over its shaders come to the same ones.
  have hwithin {slot points q} (hslot : ComesTo (c.Fills Q own.1) own.2.1.subShaders slot)
      (hpoints : c.completions own.1 slot = .ok points) (hq : ComesTo P points q) :
      ComesTo Q points q :=
    hq.of_passes fun b hb => hp b ⟨own, slot, points, hown, hslot, hpoints, hb⟩
  have hslot' : ComesTo (c.Fills Q own.1) own.2.1.subShaders slot := by
    refine hslot.of_passes fun slot hslot ⟨points, hpoints, hall⟩ =>
      ⟨points, hpoints, fun b hb => ?_⟩
    have hb' := hwithin hslot hpoints (.of_forall hall hb)
    exact hp b ⟨own, slot, points, hown, hslot, hpoints, hb'⟩ (hall b hb)
  exact ⟨own, slot, points, hown, hslot', hpoints, hwithin hslot' hpoints hq⟩

/-- What a compilation gets to ends one level earlier than itself. -/
theorem Needs.settled (h : c.Needs p q) (hp : Settled (c.resultTo (depth + 1) p)) :
    Settled (c.resultTo depth q) := by
  rw [resultTo_succ, settled_withSubShaders_iff] at hp
  exact hp q (h.of_passes fun q hq hcompiles => hcompiles.eq_ok (hp q hq))

/-- All shaders that a compilation can get to are in one list. -/
theorem exists_needed (c : Compiler Id) (p : ExtensionShader) :
    ∃ l : List ExtensionShader, ∀ q, c.Needs p q → q ∈ l := by
  cases hown : c.ownResult p with
  | error e =>
    refine ⟨[], ?_⟩
    rintro q ⟨own, slot, points, hown', -⟩
    cases hown.symm.trans hown'
  | ok own =>
    refine ⟨own.2.1.subShaders.flatMap fun slot => (c.completions own.1 slot).toOption.getD [], ?_⟩
    rintro q ⟨own', slot, points, hown', hslot, hpoints, hq⟩
    cases hown.symm.trans hown'
    refine List.mem_flatMap.2 ⟨slot, hslot.mem, ?_⟩
    rw [hpoints]
    exact hq.mem

/-- Of finitely many compilations, all that end do so up to one depth. -/
theorem exists_depth (l : List ExtensionShader) :
    ∃ depth, ∀ q ∈ l, c.Ends q → Settled (c.resultTo depth q) := by
  induction l with
  | nil => exact ⟨0, nofun⟩
  | cons p l ih =>
    obtain ⟨depth, hl⟩ := ih
    by_cases hp : c.Ends p
    · obtain ⟨depth', hp⟩ := ends_iff.1 hp
      refine ⟨max depth depth', List.forall_mem_cons.2 ⟨fun _ => ?_, fun q hq hends => ?_⟩⟩
      · rwa [resultTo_of_le hp (Nat.le_max_right ..)]
      · have hq := hl q hq hends
        rwa [resultTo_of_le hq (Nat.le_max_left ..)]
    · exact ⟨depth, List.forall_mem_cons.2 ⟨fun hends => absurd hends hp, hl⟩⟩

/-- A compilation ends if all that it gets to do. -/
theorem ends_of_needs (h : ∀ q, c.Needs p q → c.Ends q) : c.Ends p := by
  obtain ⟨l, hl⟩ := c.exists_needed p
  obtain ⟨depth, hdepth⟩ := c.exists_depth l
  refine ends_iff.2 ⟨depth + 1, ?_⟩
  rw [resultTo_succ, settled_withSubShaders_iff]
  intro q hq
  have hneeds : c.Needs p q := hq.imp fun q => compiles_of_eq_ok
  exact hdepth q (hl q hneeds) (h q hneeds)

theorem ends_iff_acc : c.Ends p ↔ Acc (fun q p => c.Needs p q) p := by
  constructor
  · rw [ends_iff]
    rintro ⟨depth, h⟩
    induction depth generalizing p with
    | zero => exact absurd h not_settled_resultTo_zero
    | succ depth ih => exact .intro p fun q hq => ih (hq.settled h)
  · intro h
    induction h with
    | intro p _ ih => exact ends_of_needs ih

theorem ends_iff_not_exists_chain :
    c.Ends p ↔ ¬ ∃ chain : Nat → ExtensionShader, chain 0 = p ∧
      ∀ n, c.Needs (chain n) (chain (n + 1)) := by
  rw [ends_iff_acc, ← not_iff_not, not_not]
  exact not_acc_iff_exists_descending_chain

/-! ## Descriptions -/

/-- A description is compiled under the defines of the configuration. -/
def start (c : Compiler Id) (name source : String) : ExtensionShader :=
  ⟨name, source, c.config.defines⟩

theorem result_compile (c : Compiler Id) (name source : String) :
    result (c.compile name source) = c.resultTo nestingLimit (c.start name source) := by
  rw [compile, resultTo, start]

/-- A compilation comes to one result, a shader or an error, unless it gets from one shader to
another without end, each registered for an extension point and with a captured text behind its
source. The depth up to which `compile` goes may cut off a result, but does not change it. -/
theorem compile_ends_iff (c : Compiler Id) (name source : String) :
    ((∃! r, c.ComesOut (c.start name source) r) ↔
      ¬ ∃ chain : Nat → ExtensionShader, chain 0 = c.start name source ∧
        ∀ n, c.Needs (chain n) (chain (n + 1))) ∧
    (∀ p q, c.Needs p q → ∃ point shaders x text, c.extensions point = .ok shaders ∧
      x ∈ shaders ∧ q = { x with source := x.source ++ "\n" ++ text }) ∧
    ∀ r, c.ComesOut (c.start name source) r →
      result (c.compile name source) = r ∨
        ∃ missing, result (c.compile name source) = .error (.nestingTooDeep missing) := by
  refine ⟨?_, ?_, ?_⟩
  · rw [← ends_iff_not_exists_chain]
    constructor
    · exact fun h => h.exists
    · rintro ⟨r, hr⟩
      exact ⟨r, hr, fun r' hr' => hr'.unique hr⟩
  · rintro p q ⟨own, slot, points, -, -, hpoints, hq⟩
    obtain ⟨shaders, x, text, hshaders, hx, -, hq⟩ := registered_of_completions hpoints hq.mem
    exact ⟨slot.name, shaders, x, text, hshaders, hx, hq⟩
  · intro r hr
    rw [result_compile]
    -- Either the result is there at the greatest depth, or that depth is what is missing.
    by_cases hsettled : Settled (c.resultTo nestingLimit (c.start name source))
    · exact .inl (ComesOut.unique ⟨hsettled, nestingLimit, rfl⟩ hr)
    · rw [settled_iff] at hsettled
      push Not at hsettled
      exact .inr hsettled

/-! ## A shader that completes itself -/

/-- The tree of a source that declares nothing but a sub-shader. -/
def slotTree (name : String) (block : Int) : Tree :=
  let slot : Parts := ⟨[⟨.identifier, .leaf (.str name)⟩], [⟨.index, .leaf (.int block)⟩]⟩
  Parts.tree (.one .subShader (.node (slot.tree .subShader))) .root

theorem ofTokens_slot {t t' t'' : PlacedToken} {name : String} {block : Nat}
    (ht : t.token = .keyword .subShader) (ht' : t'.token = .identifier name)
    (ht'' : t''.token = .rawBlock block) :
    Tree.ofTokens [t, t', t''] = .ok (slotTree name (Number.signed32 block)) := by
  simp [Tree.ofTokens, Grammar.readTop, Form.isMark, Grammar.top?, Grammar.subShader, Form.read,
    Form.readLiteral, Literal.read, Except.map, ht, ht', ht'']
  rfl

/-- A compiler with one registered shader, which is for the extension point `P` and has a sub-shader
for `P` itself. -/
def selfCompleting : Compiler Id where
  config := .standard
  includes _ := none
  converter := Hlsl.reflector
  extensions := .ofTable (.ofList [("P", [⟨"X", "subshader P \x7b \x7d", .empty⟩])])
  verifier? := none

theorem read_selfCompleting :
    ∃ files, Document.read "subshader P \x7b \x7d\n " .empty (fun _ => none) =
      .ok ⟨slotTree "P" 0, [⟨.subShader, 0, " "⟩], files⟩ := by
  have hscan : ((Scan.fresh (.ofTable .empty)).process (fun _ => none)
      "subshader P \x7b \x7d\n " []).toOption.map (fun r => (r.2.tokens, r.2.journal.blocks)) =
      some ([⟨none, 1, 1, .keyword .subShader⟩, ⟨none, 1, 11, .identifier "P"⟩,
        ⟨none, 1, 13, .rawBlock 0⟩], [⟨.subShader, 0, " "⟩]) := by decide +kernel
  obtain ⟨⟨frames, s⟩, hs, hfields⟩ := Option.map_eq_some_iff.1 hscan
  obtain ⟨htokens, hblocks⟩ := Prod.mk.inj hfields
  refine ⟨s.journal.files, ?_⟩
  rw [Document.read, Outcome.toOption_eq_some_iff.1 hs]
  simp only at htokens hblocks
  simp only [htokens, hblocks]
  rw [ofTokens_slot rfl rfl rfl]
  rfl

/-- The registered shader comes to be compiled, whatever is compiled from the same source. -/
theorem needs_selfCompleting (name : String) :
    selfCompleting.Needs ⟨name, "subshader P \x7b \x7d\n ", .empty⟩
      ⟨"X", "subshader P \x7b \x7d\n ", .empty⟩ := by
  obtain ⟨files, hread⟩ := read_selfCompleting
  have hown : ∃ shader, selfCompleting.ownResult ⟨name, "subshader P \x7b \x7d\n ", .empty⟩ =
      .ok (⟨slotTree "P" 0, [⟨.subShader, 0, " "⟩], files⟩,
        Catalog.ofDocument ⟨slotTree "P" 0, [⟨.subShader, 0, " "⟩], files⟩, shader) := by
    rw [ownResult, compileOwn, compileOwnBy, result_bind, result_ofExcept, selfCompleting, hread]
    exact ⟨_, rfl⟩
  obtain ⟨shader, hown⟩ := hown
  exact ⟨_, ⟨"P", 0⟩, _, hown, ⟨[], [], rfl, nofun⟩, by rfl, ⟨[], [], rfl, nofun⟩⟩

/-- The compilation of a source with the sub-shader `P` gets to the registered shader, and from
there to the same shader again. -/
theorem selfCompleting_never_ends :
    ¬ selfCompleting.Ends (selfCompleting.start "S" "subshader P \x7b \x7d\n ") := by
  rw [ends_iff_not_exists_chain, not_not]
  refine ⟨fun n => ⟨if n = 0 then "S" else "X", "subshader P \x7b \x7d\n ", .empty⟩, rfl, ?_⟩
  exact fun n => needs_selfCompleting _

end Compiler
end ShaderLang
