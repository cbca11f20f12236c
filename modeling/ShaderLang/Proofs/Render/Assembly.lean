import Mathlib.Data.List.Induction
import ShaderLang.Proofs.Render.Merge
/-!
# What passes are put together from

Bodies are merged one after the other. A pass takes part from the first body that makes it on. Its
states are told by two rows of writes: those of all `pass` statements of its number, which win, and
those of the shared state blocks that it has seen. Its code is what the bodies that it has seen
contribute.

## Main definitions

* `PassSet.ofBodies` — the passes of a row of bodies
* `PassSet.sharedWrites` — what the shared state blocks of bodies write
* `PassSet.madeFrom` — the bodies that a pass of a number has seen
* `PassSet.explicitWrites` — what the `pass` statements for a number write
* `PassSet.Assembled` — what a pass is put together from

## Main results

* `PassSet.isSome_at?_ofBodies`, `PassSet.assembled` — which passes there are, and that each is put
  together that way
* `PassSet.explicit_states_win` — what `pass` statements write stays, and default marks are right
-/

namespace ShaderLang

/-! ## The code of a body -/

/-- The `code` statement that a setting is, if it is one. -/
def Setting.codeStatement? (s : Setting Tree) : Option Tree :=
  match s.kind, s.value with
  | .code, .node statement => some statement
  | _, _ => none

/-- The `code` statements of a body. -/
def Tree.codeStatements (body : Tree) : List Tree :=
  body.declared.filterMap Setting.codeStatement?

/-- The code that a contribution adds. -/
def Contribution.code (d : Document) : Contribution → String
  | shared statement => d.codeOf statement
  | own body => String.join (body.codeStatements.map d.codeOf)

/-- What a contribution writes to the states. -/
def Contribution.writes : Contribution → Writes Field
  | shared _ => []
  | own body => body.stateWrites

theorem PassData.code_applyBody (d : Document) (p : PassData) (body : Tree) :
    (p.applyBody d body).code = p.code ++ String.join (body.codeStatements.map d.codeOf) := by
  rw [applyBody, Tree.codeStatements]
  generalize body.declared = ss
  induction ss generalizing p with
  | nil => simp
  | cons s ss ih =>
    obtain ⟨kind, value⟩ := s
    rw [List.foldl_cons, ih]
    dsimp only [applyStatement]
    split
    · next statement =>
      simp [Setting.codeStatement?, addCode, String.append_assoc]
    · next hcode =>
      have hnone : Setting.codeStatement? ⟨kind, value⟩ = none := by
        simp only [Setting.codeStatement?]
      rw [List.filterMap_cons_none hnone, (PassSet.restates_applyState p ⟨kind, value⟩).code]

namespace Contribution

variable (d : Document) (p : PassData) (c : Contribution)

theorem code_apply : (c.apply d p).code = p.code ++ c.code d := by
  cases c with
  | shared statement => rfl
  | own body => exact PassData.code_applyBody d p body

theorem apply_overwrites : Overwrites PassData.get (fun p => c.apply d p) c.writes := by
  cases c with
  | shared statement => exact fun _ _ => rfl
  | own body => exact PassData.applyBody_overwrites d body

theorem keepsDefaults_apply : KeepsDefaults p.toPassStates (c.apply d p).toPassStates := by
  cases c with
  | shared statement => exact .refl _
  | own body => exact PassData.keepsDefaults_applyBody d p body

end Contribution

namespace PassSet

variable {d : Document} {bodies : List Tree} {i : Nat} {p : PassData}

/-! ## One merge -/

theorem code_mergedPass (explicit : List (Nat × Tree)) (body : Tree) :
    (mergedPass d explicit body i p).code =
      p.code ++ String.join ((body.contributions i).map (Contribution.code d)) := by
  rw [mergedPass, (Restates.foldl restates_applyStates _ _).code,
    (restates_applyStates _ body).code]
  generalize body.contributions i = cs
  induction cs generalizing p with
  | nil => simp
  | cons c cs ih => simp [ih, Contribution.code_apply, String.append_assoc]

/-- What the state blocks of bodies write, one body behind the other. -/
def writesOf (bodies : List Tree) : Writes Field := bodies.flatMap Tree.stateWrites

theorem statementsFor_append (statements others : List (Nat × Tree)) :
    statementsFor i (statements ++ others) =
      statementsFor i statements ++ statementsFor i others := by
  simp only [statementsFor, List.filter_append, List.map_append]

theorem writesOf_append (bodies others : List Tree) :
    writesOf (bodies ++ others) = writesOf bodies ++ writesOf others := List.flatMap_append

/-- The contributions of `pass` statements are the bodies of the statements. -/
theorem writes_contributionsFrom (next : Nat) (ss : List (Setting Tree)) :
    (contributionsFrom i next ss).flatMap Contribution.writes =
      writesOf (statementsFor i (numbered next ss)) := by
  induction ss generalizing next with
  | nil => rfl
  | cons s ss ih =>
    obtain ⟨kind, value⟩ := s
    simp only [contributionsFrom]
    split
    · next statement =>
      by_cases hi : passIndex statement next = i
      · simp [numbered, statementsFor, hi, Contribution.writes, ih, writesOf]
      · simp [numbered, statementsFor, hi, ih]
    · exact ih next
    · simp only [numbered]
      exact ih next

theorem mergedPass_overwrites (explicit : List (Nat × Tree)) (body : Tree) :
    Overwrites PassData.get (mergedPass d explicit body i)
      (writesOf (statementsFor i body.passStatements) ++ body.stateWrites ++
        writesOf (statementsFor i explicit)) := by
  rw [Tree.passStatements, ← writes_contributionsFrom]
  exact ((Overwrites.foldl (Contribution.apply_overwrites d) _).append
    (PassData.applyStates_overwrites body)).append
    (Overwrites.foldl PassData.applyStates_overwrites _)

/-- The statements for the pass have the last word in a merge. What they wrote before the shared
states they write once more behind them. -/
theorem get_mergedPass (explicit : List (Nat × Tree)) (body : Tree) (f : Field) :
    (mergedPass d (explicit ++ body.passStatements) body i p).get f =
      ((writesOf (statementsFor i (explicit ++ body.passStatements))).last? f).getD
        ((body.stateWrites.last? f).getD (p.get f)) := by
  rw [mergedPass_overwrites]
  simp only [statementsFor_append, writesOf_append, Writes.last?_append]
  cases (writesOf (statementsFor i body.passStatements)).last? f with
  | some v => rfl
  | none =>
    cases (writesOf (statementsFor i explicit)).last? f with
    | some v => rfl
    | none => cases body.stateWrites.last? f <;> rfl

theorem keepsDefaults_mergedPass (explicit : List (Nat × Tree)) (body : Tree) :
    KeepsDefaults p.toPassStates (mergedPass d explicit body i p).toPassStates :=
  ((KeepsDefaults.foldl (Contribution.keepsDefaults_apply d) _ p).trans
    (PassData.keepsDefaults_applyStates _ body)).trans
    (.foldl PassData.keepsDefaults_applyStates _ _)

/-! ## A row of merges -/

/-- The passes of a row of bodies. -/
def ofBodies (d : Document) (bodies : List Tree) : PassSet := bodies.foldl (merge d) .empty

/-- The bodies that a pass of a number has seen: all from the first that makes it on. -/
def madeFrom (i : Nat) (bodies : List Tree) : List Tree := bodies.dropWhile (!·.makes i)

/-- What the `pass` statements for a number write, in the order of merging. -/
def explicitWrites (i : Nat) (bodies : List Tree) : Writes Field :=
  writesOf (statementsFor i (bodies.flatMap Tree.passStatements))

/-- What a pass of a number is put together from. -/
structure Assembled (d : Document) (bodies : List Tree) (i : Nat) (p : PassData) : Prop where
  code : p.code = String.join
    (((madeFrom i bodies).flatMap (·.contributions i)).map (Contribution.code d))
  states : ∀ f, p.get f = ((explicitWrites i bodies).last? f).getD
    (((writesOf (madeFrom i bodies)).last? f).getD (PassStates.standard.get f))
  defaults : KeepsDefaults .standard p.toPassStates

theorem ofBodies_append_singleton (body : Tree) :
    ofBodies d (bodies ++ [body]) = merge d (ofBodies d bodies) body := by
  rw [ofBodies, ofBodies, List.foldl_append, List.foldl_cons, List.foldl_nil]

theorem madeFrom_append_of_eq_nil (h : madeFrom i bodies = []) (others : List Tree) :
    madeFrom i (bodies ++ others) = madeFrom i others := by
  rw [madeFrom] at h
  rw [madeFrom, List.dropWhile_append, h]
  rfl

theorem madeFrom_append_of_ne_nil (h : madeFrom i bodies ≠ []) (others : List Tree) :
    madeFrom i (bodies ++ others) = madeFrom i bodies ++ others := by
  rw [madeFrom] at h
  rw [madeFrom, List.dropWhile_append, if_neg (List.isEmpty_iff.not.2 h)]
  rfl

theorem madeFrom_singleton (body : Tree) :
    madeFrom i [body] = if body.makes i then [body] else [] := by
  cases h : body.makes i <;> simp [madeFrom, h]

/-- The pass of number zero has seen everything. -/
theorem madeFrom_zero (bodies : List Tree) : madeFrom 0 bodies = bodies := by
  cases bodies <;> simp [madeFrom, Tree.makes]

variable (d bodies) in
theorem sound_ofBodies : (ofBodies d bodies).Sound := by
  induction bodies using List.reverseRecOn with
  | nil => exact sound_empty
  | append_singleton bodies body ih =>
    rw [ofBodies_append_singleton]
    exact ih.merge d body

variable (d bodies) in
theorem explicit_ofBodies :
    (ofBodies d bodies).explicit = bodies.flatMap Tree.passStatements := by
  induction bodies using List.reverseRecOn with
  | nil => rfl
  | append_singleton bodies body ih =>
    rw [ofBodies_append_singleton, explicit_merge, ih, List.flatMap_append, List.flatMap_singleton]

variable (d bodies i) in
/-- There is a pass of a number once a body makes it. -/
theorem isSome_at?_ofBodies :
    (at? (ofBodies d bodies).passes i).isSome ↔ madeFrom i bodies ≠ [] := by
  induction bodies using List.reverseRecOn with
  | nil => simp [ofBodies, empty, at?, madeFrom]
  | append_singleton bodies body ih =>
    rw [ofBodies_append_singleton, isSome_at?_merge (sound_ofBodies d bodies), ih]
    by_cases hmade : madeFrom i bodies = []
    · rw [madeFrom_append_of_eq_nil hmade, madeFrom_singleton]
      simp [hmade]
    · simp [madeFrom_append_of_ne_nil hmade, hmade]

/-- A pass after one more merge: it was there before, or the body makes it. -/
theorem at?_ofBodies_append_singleton {body : Tree}
    (h : at? (ofBodies d (bodies ++ [body])).passes i = some p) :
    (∃ q, at? (ofBodies d bodies).passes i = some q ∧ madeFrom i bodies ≠ [] ∧
      p = mergedPass d (bodies.flatMap Tree.passStatements ++ body.passStatements) body i q) ∨
    (madeFrom i bodies = [] ∧ madeFrom i [body] = [body] ∧
      p = mergedPass d (bodies.flatMap Tree.passStatements ++ body.passStatements) body i
        (PassData.fresh i)) := by
  have hmade := isSome_at?_ofBodies d bodies i
  rw [ofBodies_append_singleton, at?_merge (sound_ofBodies d bodies), explicit_ofBodies,
    Option.map_eq_some_iff] at h
  obtain ⟨q, hq, rfl⟩ := h
  cases hold : at? (ofBodies d bodies).passes i with
  | some r =>
    rw [existing, hold] at hq
    cases hq
    exact .inl ⟨q, rfl, hmade.1 (by simp [hold]), rfl⟩
  | none =>
    rw [existing, hold] at hq
    cases hmakes : body.makes i with
    | false => simp [hmakes] at hq
    | true =>
      simp only [hmakes, cond_true, Option.none_or] at hq
      cases hq
      -- There was no pass, so that no body before makes one.
      refine .inr ⟨?_, by simp [madeFrom_singleton, hmakes], rfl⟩
      simpa [hold] using hmade

theorem explicitWrites_append_singleton (body : Tree) :
    explicitWrites i (bodies ++ [body]) =
      writesOf (statementsFor i (bodies.flatMap Tree.passStatements ++ body.passStatements)) := by
  rw [explicitWrites, List.flatMap_append, List.flatMap_singleton]

/-- The states after one more merge, where `shared` has been written before. -/
theorem get_mergedPass_of_get {shared : Writes Field} {f : Field} (body : Tree)
    (h : p.get f = ((explicitWrites i bodies).last? f).getD
      ((shared.last? f).getD (PassStates.standard.get f))) :
    (mergedPass d (bodies.flatMap Tree.passStatements ++ body.passStatements) body i p).get f =
      ((explicitWrites i (bodies ++ [body])).last? f).getD
        (((shared ++ body.stateWrites).last? f).getD (PassStates.standard.get f)) := by
  rw [get_mergedPass, h, explicitWrites_append_singleton]
  simp only [explicitWrites, statementsFor_append, writesOf_append, Writes.last?_append]
  cases (writesOf (statementsFor i body.passStatements)).last? f with
  | some v => rfl
  | none =>
    -- What `pass` statements have written is written again; else the shared states go on.
    cases (writesOf (statementsFor i (bodies.flatMap Tree.passStatements))).last? f with
    | some v => rfl
    | none => cases body.stateWrites.last? f <;> rfl

/-- Every pass is put together from the bodies that it has seen. -/
theorem assembled (h : at? (ofBodies d bodies).passes i = some p) : Assembled d bodies i p := by
  induction bodies using List.reverseRecOn generalizing p with
  | nil => cases h
  | append_singleton bodies body ih =>
    rcases at?_ofBodies_append_singleton h with ⟨q, hq, hmade, rfl⟩ | ⟨hnone, hbody, rfl⟩
    -- An old pass has seen one body more.
    · have hold := ih hq
      have hfrom := madeFrom_append_of_ne_nil hmade [body]
      refine ⟨?_, fun f => ?_, hold.defaults.trans (keepsDefaults_mergedPass _ body)⟩
      · rw [code_mergedPass, hold.code, hfrom]
        simp
      · rw [get_mergedPass_of_get body (hold.states f), hfrom, writesOf_append]
        simp [writesOf]
    -- A new one starts from the standard states and has seen this body alone.
    · have hfrom := (madeFrom_append_of_eq_nil hnone [body]).trans hbody
      refine ⟨?_, fun f => ?_, keepsDefaults_mergedPass (p := PassData.fresh i) _ body⟩
      · rw [code_mergedPass, hfrom]
        simp [PassData.fresh]
      · rw [get_mergedPass, hfrom, explicitWrites_append_singleton]
        simp only [writesOf, List.flatMap_singleton]
        rfl

theorem Sound.at?_of_mem {set : PassSet} (h : set.Sound) (hp : p ∈ set.passes) :
    at? set.passes p.index = some p := PassSet.at?_of_mem h.nodup hp

/-- A pass stays, and what counts as default afterwards counted so before. -/
theorem exists_of_more (hp : p ∈ (ofBodies d bodies).passes) (more : List Tree) :
    ∃ q ∈ (ofBodies d (bodies ++ more)).passes, q.index = p.index ∧
      KeepsDefaults p.toPassStates q.toPassStates := by
  -- Each merge keeps the pass under its number, one after the other.
  induction more using List.reverseRecOn with
  | nil => exact ⟨p, by rwa [List.append_nil], rfl, .refl _⟩
  | append_singleton more body ih =>
    obtain ⟨q, hq, hindex, hkeeps⟩ := ih
    have hsound := sound_ofBodies d (bodies ++ more)
    have hmerge := at?_merge hsound d body q.index
    rw [existing, hsound.at?_of_mem hq] at hmerge
    obtain ⟨hmem, hsame⟩ := mem_of_at? hmerge
    rw [← List.append_assoc, ofBodies_append_singleton]
    exact ⟨_, hmem, hsame.trans hindex, hkeeps.trans (keepsDefaults_mergedPass _ body)⟩

variable (d bodies) in
/-- In the passes of a row of bodies, each field that a `pass` statement of the number of its pass
writes has the last value so written, whatever else is merged before or behind. A state that counts
as default is the default one, and one that does not never counts so again. -/
theorem explicit_states_win :
    ((ofBodies d bodies).passes.map (·.index)).Nodup ∧
    (∀ statement ∈ bodies.flatMap Tree.passStatements,
      ∃ p ∈ (ofBodies d bodies).passes, p.index = statement.1) ∧
    ∀ p ∈ (ofBodies d bodies).passes,
      (∀ f v, (explicitWrites p.index bodies).last? f = some v → p.get f = v) ∧
      p.Marked ∧
      ∀ more, ∃ q ∈ (ofBodies d (bodies ++ more)).passes, q.index = p.index ∧
        KeepsDefaults p.toPassStates q.toPassStates := by
  have hsound := sound_ofBodies d bodies
  refine ⟨hsound.nodup, fun statement hstatement => ?_, fun p hp => ?_⟩
  · obtain ⟨p, hp⟩ := Option.isSome_iff_exists.1 <|
      hsound.explicit statement (by rwa [explicit_ofBodies])
    exact ⟨p, mem_of_at? hp⟩
  · have hassembled := assembled (hsound.at?_of_mem hp)
    refine ⟨fun f v hv => ?_, hassembled.defaults.marked, exists_of_more hp⟩
    rw [hassembled.states, hv, Option.getD_some]

/-- A `raster` block that sets the culling. -/
def culling (m : CullAndQueue) : Setting Tree :=
  ⟨.raster, .node (.node ⟨.raster, [⟨.cullMode, .leaf (.cullAndQueue m)⟩]⟩)⟩

/-- A mixin with a pass that sets the culling. -/
def cullingMixin : Tree := .node ⟨.mixin, [⟨.pass, .node (.node ⟨.pass, [culling .none]⟩)⟩]⟩

/-- A shader that sets the culling for all passes. -/
def cullingShader : Tree := .node ⟨.shader, [culling .cw]⟩

/-- The shader comes last, and the pass of the mixin wins. -/
theorem explicit_states_win_culling :
    (explicitWrites 0 [cullingMixin, cullingShader]).last? (.raster .cullMode) =
        some (.culling .none) ∧
      ∃ p ∈ (ofBodies ⟨cullingShader, [], []⟩ [cullingMixin, cullingShader]).passes,
        p.index = 0 ∧ p.get (.raster .cullMode) = .culling .none ∧ p.Marked := by
  have hwrites : (explicitWrites 0 [cullingMixin, cullingShader]).last? (.raster .cullMode) =
      some (.culling .none) := by decide
  obtain ⟨-, hmade, hpasses⟩ :=
    explicit_states_win ⟨cullingShader, [], []⟩ [cullingMixin, cullingShader]
  obtain ⟨p, hp, hindex⟩ := hmade (0, .node ⟨.pass, [culling .none]⟩) (List.mem_singleton.2 rfl)
  obtain ⟨hwins, hmarked, -⟩ := hpasses p hp
  exact ⟨hwrites, p, hp, hindex, hwins _ _ (hindex ▸ hwrites), hmarked⟩

end PassSet
end ShaderLang
