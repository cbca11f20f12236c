import Mathlib.Data.List.Basic
import ShaderLang.Proofs.Render.Default
import ShaderLang.Proofs.Render.Field
/-!
# What a merge does to one pass

A merge changes all passes at a time, but what becomes of one pass does not depend on the others. A
pass is followed here by its number: it exists once a body makes it, and from then on every body
adds its shared code, the code and the states of the pass's own statements, its shared states, and
the states of all `pass` statements of that number so far.

## Main definitions

* `Tree.passStatements` — the `pass` statements of a body with the numbers of their passes
* `Tree.contributions` — what a body adds to a pass of a number, statement by statement
* `Tree.makes` — a body brings a pass of a number into being, if there is none
* `PassSet.mergedPass` — what a merge makes of a pass
* `PassSet.Sound` — the passes have distinct numbers, among them those of all `pass` statements

## Main results

* `PassSet.at?_merge_started`, `PassSet.at?_merge` — what a merge does to the pass of a number
* `PassSet.Sound.merge` — a merge keeps passes sound
-/

namespace ShaderLang

/-- Something that a body adds to a pass. -/
inductive Contribution
  /-- A `code` statement at the level of the body. -/
  | shared (statement : Tree)
  /-- The body of a `pass` statement for this pass. -/
  | own (body : Tree)

/-- Adds a contribution to a pass. -/
def Contribution.apply (d : Document) (p : PassData) : Contribution → PassData
  | shared statement => p.addCode (d.codeOf statement)
  | own body => p.applyBody d body

namespace PassSet

/-- The `pass` statements among statements, with the numbers of their passes; `next` is the number
of one that names none. -/
def numbered : Nat → List (Setting Tree) → List (Nat × Tree)
  | _, [] => []
  | next, s :: ss =>
    match s.kind, s.value with
    | .pass, .node statement =>
      (passIndex statement next, statement) ::
        numbered (max next (passIndex statement next) + 1) ss
    | _, _ => numbered next ss

/-- What statements add to the pass of a number. -/
def contributionsFrom (i : Nat) : Nat → List (Setting Tree) → List Contribution
  | _, [] => []
  | next, s :: ss =>
    match s.kind, s.value with
    | .pass, .node statement =>
      let others := contributionsFrom i (max next (passIndex statement next) + 1) ss
      if passIndex statement next = i then .own statement :: others else others
    | .code, .node statement => .shared statement :: contributionsFrom i next ss
    | _, _ => contributionsFrom i next ss

end PassSet

/-- The `pass` statements of a body with the numbers of their passes. -/
def Tree.passStatements (body : Tree) : List (Nat × Tree) := PassSet.numbered 0 body.declared

/-- What a body adds to the pass of a number, apart from states. -/
def Tree.contributions (i : Nat) (body : Tree) : List Contribution :=
  PassSet.contributionsFrom i 0 body.declared

/-- A merge of the body leaves a pass of the number, whatever passes there were before. The pass of
number zero is always made. -/
def Tree.makes (i : Nat) (body : Tree) : Bool :=
  i == 0 || (body.passStatements.map (·.1)).contains i

namespace PassSet

/-- The pass of a number. -/
def at? (ps : List PassData) (i : Nat) : Option PassData := ps.find? (·.index = i)

variable {ps : List PassData} {i j : Nat} {code : String} {f : PassData → PassData}

/-- A change of one pass makes it if need be, and leaves all others alone. -/
theorem at?_change (hf : ∀ p, (f p).index = p.index) :
    at? (change i code f ps) j =
      if j = i then some (f ((at? ps i).getD { PassData.fresh i with code })) else at? ps j := by
  have hfresh : (f { PassData.fresh i with code }).index = i := hf _
  induction ps with
  | nil =>
    simp only [change, at?, List.find?_cons, hfresh, List.find?_nil, eq_comm (a := j)]
    split <;> simp_all
  | cons p ps ih =>
    simp only [at?] at ih
    by_cases hp : p.index = i
    · by_cases hj : j = i <;> simp_all [change, at?, eq_comm (a := j)]
    · by_cases hpj : p.index = j
      · have hj : j ≠ i := fun h => hp (hpj.trans h)
        simp [change, at?, hpj, hj]
      · simp [change, at?, hp, hpj, ih]

theorem at?_map (hf : ∀ p, (f p).index = p.index) : at? (ps.map f) i = (at? ps i).map f := by
  simp only [at?, List.find?_map, Function.comp_def, hf]

theorem map_index_change (hf : ∀ p, (f p).index = p.index) :
    (change i code f ps).map (·.index) =
      if i ∈ ps.map (·.index) then ps.map (·.index) else ps.map (·.index) ++ [i] := by
  induction ps with
  | nil => simp [change, hf, PassData.fresh]
  | cons p ps ih =>
    by_cases hp : p.index = i
    · simp [change, hp, hf]
    · simp only [change, hp, if_false, List.map_cons, ih, List.mem_cons, Ne.symm hp, false_or]
      split <;> simp

theorem at?_of_mem {p : PassData} (h : (ps.map (·.index)).Nodup) (hp : p ∈ ps) :
    at? ps p.index = some p := by
  induction ps with
  | nil => cases hp
  | cons q qs ih =>
    rcases List.mem_cons.1 hp with rfl | hp
    · simp [at?]
    · -- Numbers are distinct, so that the search does not stop at the pass in front.
      obtain ⟨hq, hqs⟩ := List.nodup_cons.1 h
      have hne : q.index ≠ p.index := fun heq => hq (List.mem_map.2 ⟨p, hp, heq.symm⟩)
      simpa [at?, hne] using ih hqs hp

theorem mem_of_at? {p : PassData} (h : at? ps i = some p) : p ∈ ps ∧ p.index = i :=
  ⟨List.mem_of_find?_eq_some h, by simpa using List.find?_some h⟩

/-! ## Statements of states -/

/-- A pass differs from another in its states only. -/
structure Restates (p q : PassData) : Prop where
  index : q.index = p.index
  code : q.code = p.code

theorem Restates.refl (p : PassData) : Restates p p := ⟨rfl, rfl⟩

theorem Restates.foldl {α : Type} {step : PassData → α → PassData}
    (h : ∀ p a, Restates p (step p a)) (l : List α) (p : PassData) :
    Restates p (l.foldl step p) := by
  induction l generalizing p with
  | nil => exact .refl p
  | cons a l ih => exact ⟨(ih _).index.trans (h p a).index, (ih _).code.trans (h p a).code⟩

theorem restates_applyState (p : PassData) (s : Setting Tree) : Restates p (p.applyState s) := by
  have hraster : ∀ (p : PassData) s, Restates p (p.setRaster s) := by
    intro p s
    rw [PassData.setRaster]
    split <;> exact ⟨rfl, rfl⟩
  have hdepth : ∀ (p : PassData) s, Restates p (p.setDepth s) := by
    intro p s
    rw [PassData.setDepth]
    split <;> exact ⟨rfl, rfl⟩
  have hstencil : ∀ (p : PassData) s, Restates p (p.setStencil s) := by
    intro p s
    rw [PassData.setStencil]
    split
    · exact ⟨rfl, rfl⟩
    · split <;> exact ⟨rfl, rfl⟩
  rw [PassData.applyState]
  split
  · exact ⟨rfl, rfl⟩
  · exact .foldl hraster _ p
  · exact .foldl hdepth _ p
  · exact .foldl hstencil _ p
  · exact .refl p

theorem restates_applyStates (p : PassData) (body : Tree) : Restates p (p.applyStates body) :=
  .foldl restates_applyState body.declared p

theorem index_applyStates (p : PassData) (body : Tree) :
    (p.applyStates body).index = p.index := (restates_applyStates p body).index

theorem index_applyBody (d : Document) (p : PassData) (body : Tree) :
    (p.applyBody d body).index = p.index := by
  have hstatement : ∀ (p : PassData) s, (p.applyStatement d s).index = p.index := by
    intro p s
    rw [PassData.applyStatement]
    split
    · rfl
    · exact (restates_applyState p s).index
  rw [PassData.applyBody]
  generalize body.declared = ss
  induction ss generalizing p with
  | nil => rfl
  | cons s ss ih => rw [List.foldl_cons, ih, hstatement]

/-! ## The statements of a body -/

theorem explicit_statements (d : Document) (ss : List (Setting Tree)) (m : Merge) :
    (ss.foldl (Merge.statement d) m).set.explicit = m.set.explicit ++ numbered m.next ss := by
  induction ss generalizing m with
  | nil => simp [numbered]
  | cons s ss ih =>
    obtain ⟨kind, value⟩ := s
    rw [List.foldl_cons, ih]
    dsimp only [Merge.statement]
    split <;> simp [numbered]

/-- The pass of a number, or a new one with some code if there is none and one is made. -/
def existing (i : Nat) (made : Bool) (code : String) (ps : List PassData) : Option PassData :=
  (at? ps i).or (bif made then some { PassData.fresh i with code } else none)

/-- The statements of a body add their contributions to a pass. One that is made late has been kept
the shared code of the statements before. -/
theorem at?_statements (d : Document) (i : Nat) (ss : List (Setting Tree)) (m : Merge) :
    at? (ss.foldl (Merge.statement d) m).set.passes i =
      (existing i (((numbered m.next ss).map (·.1)).contains i) m.common m.set.passes).map
        ((contributionsFrom i m.next ss).foldl (Contribution.apply d)) := by
  induction ss generalizing m with
  | nil => simp [existing, numbered, contributionsFrom]
  | cons s ss ih =>
    obtain ⟨kind, value⟩ := s
    rw [List.foldl_cons, ih]
    dsimp only [Merge.statement]
    split
    · next statement =>
      simp only [existing, at?_change fun p => index_applyBody d p statement, numbered,
        contributionsFrom, List.map_cons, List.contains_cons]
      by_cases hi : i = passIndex statement m.next
      · -- A pass that is made here takes the code kept so far, as one made later would.
        subst hi
        cases at? m.set.passes (passIndex statement m.next) <;> simp [Contribution.apply]
      · have hne : (i == passIndex statement m.next) = false := beq_false_of_ne hi
        simp only [hi, Ne.symm hi, hne, Bool.false_or, if_false]
    · next statement =>
      have hmap : at? (m.set.passes.map (·.addCode (d.codeOf statement))) i =
          (at? m.set.passes i).map (·.addCode (d.codeOf statement)) := at?_map fun p => rfl
      simp only [existing, hmap, numbered, contributionsFrom, List.foldl_cons]
      -- The code kept for a new pass is the code that an old one has got.
      cases at? m.set.passes i with
      | some p => rfl
      | none => cases ((numbered m.next ss).map (·.1)).contains i <;> rfl
    · simp only [existing, numbered, contributionsFrom]
    · simp only [existing, numbered, contributionsFrom]

/-! ## A whole merge -/

/-- The bodies of the statements for the pass of a number. -/
def statementsFor (i : Nat) (statements : List (Nat × Tree)) : List Tree :=
  (statements.filter (·.1 = i)).map (·.2)

/-- The `pass` statements so far apply their states again, each to the pass of its number. -/
theorem at?_reapply (i : Nat) (statements : List (Nat × Tree)) (ps : List PassData)
    (h : ∀ e ∈ statements, (at? ps e.1).isSome) :
    at? (statements.foldl (fun ps e => change e.1 "" (·.applyStates e.2) ps) ps) i =
      (at? ps i).map ((statementsFor i statements).foldl PassData.applyStates) := by
  induction statements generalizing ps with
  | nil => simp [statementsFor]
  | cons e es ih =>
    have hchange (j : Nat) : at? (change e.1 "" (·.applyStates e.2) ps) j =
        if j = e.1 then some (((at? ps e.1).getD (PassData.fresh e.1)).applyStates e.2)
        else at? ps j := at?_change fun p => index_applyStates p e.2
    obtain ⟨p, hp⟩ := Option.isSome_iff_exists.1 (h e List.mem_cons_self)
    rw [List.foldl_cons, ih, hchange]
    -- The statement finds its pass, so that none is made.
    · by_cases hi : i = e.1
      · subst hi
        simp [hp, statementsFor]
      · simp [hi, Ne.symm hi, statementsFor]
    · intro e' he'
      rw [hchange]
      split
      · rfl
      · exact h e' (List.mem_cons_of_mem e he')

/-- What a merge makes of the pass of a number: the contributions of the body, the shared states of
the body, and the states of all statements for the pass, old and new. -/
def mergedPass (d : Document) (explicit : List (Nat × Tree)) (body : Tree) (i : Nat)
    (p : PassData) : PassData :=
  (statementsFor i explicit).foldl PassData.applyStates
    (((body.contributions i).foldl (Contribution.apply d) p).applyStates body)

/-- The passes have distinct numbers. Each `pass` statement has its pass, and once there are passes
there is one of number zero. -/
structure Sound (set : PassSet) : Prop where
  nodup : (set.passes.map (·.index)).Nodup
  explicit : ∀ e ∈ set.explicit, (at? set.passes e.1).isSome
  first : set.passes ≠ [] → (at? set.passes 0).isSome

theorem sound_empty : Sound empty := ⟨List.nodup_nil, nofun, fun h => absurd rfl h⟩

theorem isSome_existing {made : Bool} :
    (existing i made code ps).isSome ↔ (at? ps i).isSome ∨ made = true := by
  cases made <;> simp [existing]

theorem makes_of_mem {body : Tree} {e : Nat × Tree} (h : e ∈ body.passStatements) :
    body.makes e.1 = true := by
  rw [Tree.makes, Bool.or_eq_true, List.contains_iff_mem]
  exact .inr (List.mem_map_of_mem h)

/-- The merge of a body up to its states: the pass of number zero is there, and the statements have
been added. -/
def mergeStatements (d : Document) (set : PassSet) (body : Tree) : PassSet :=
  let passes := if set.passes.isEmpty then [PassData.fresh 0] else set.passes
  (body.declared.foldl (Merge.statement d) ⟨{ set with passes }, "", 0⟩).set

theorem explicit_mergeStatements (d : Document) (set : PassSet) (body : Tree) :
    (mergeStatements d set body).explicit = set.explicit ++ body.passStatements :=
  explicit_statements d body.declared _

theorem explicit_merge (d : Document) (set : PassSet) (body : Tree) :
    (merge d set body).explicit = set.explicit ++ body.passStatements :=
  explicit_mergeStatements d set body

variable {set : PassSet}

/-- The passes that a merge starts with: there is always one. -/
def started (set : PassSet) : List PassData :=
  if set.passes.isEmpty then [PassData.fresh 0] else set.passes

theorem at?_started_of_at? {p : PassData} (h : at? set.passes i = some p) :
    at? set.started i = some p := by
  rw [started, if_neg, h]
  intro hempty
  rw [List.isEmpty_iff.1 hempty] at h
  cases h

theorem at?_started (h : set.Sound) (i : Nat) :
    at? set.started i = existing i (i == 0) "" set.passes := by
  obtain ⟨featureSet, passes, explicit⟩ := set
  cases passes with
  | nil => cases i <;> rfl
  | cons p ps =>
    cases i with
    | zero =>
      obtain ⟨q, hq⟩ := Option.isSome_iff_exists.1 (h.first (List.cons_ne_nil p ps))
      simp [started, existing, hq]
    | succ i => simp [started, existing]

/-- A merge adds to a pass what the body has for it, whatever the other passes are, provided that
the `pass` statements merged before have their passes. There is a pass afterwards if the merge
started with it or a `pass` statement of the body is for it. -/
theorem at?_merge_started (h : ∀ e ∈ set.explicit, (at? set.started e.1).isSome) (d : Document)
    (body : Tree) (i : Nat) :
    at? (merge d set body).passes i =
      (existing i ((body.passStatements.map (·.1)).contains i) "" set.started).map
        (mergedPass d (set.explicit ++ body.passStatements) body i) := by
  have hstatements (j : Nat) : at? (mergeStatements d set body).passes j =
      (existing j ((body.passStatements.map (·.1)).contains j) "" set.started).map
        ((body.contributions j).foldl (Contribution.apply d)) := at?_statements ..
  have hstates (j : Nat) : at? ((mergeStatements d set body).passes.map (·.applyStates body)) j =
      (existing j ((body.passStatements.map (·.1)).contains j) "" set.started).map fun p =>
        ((body.contributions j).foldl (Contribution.apply d) p).applyStates body := by
    rw [at?_map fun p => index_applyStates p body, hstatements, Option.map_map]
    rfl
  -- All explicit statements are for passes that are there, so that repeating them makes none.
  have hmade : ∀ e ∈ set.explicit ++ body.passStatements,
      (at? ((mergeStatements d set body).passes.map (·.applyStates body)) e.1).isSome := by
    intro e he
    rw [hstates, Option.isSome_map, isSome_existing]
    rcases List.mem_append.1 he with he | he
    · exact .inl (h e he)
    · exact .inr (List.contains_iff_mem.2 (List.mem_map_of_mem he))
  rw [← explicit_mergeStatements d] at hmade ⊢
  rw [merge]
  exact (at?_reapply i _ _ hmade).trans (by rw [hstates, Option.map_map]; rfl)

/-- The same where passes are sound, told from the passes before the merge. -/
theorem at?_merge (h : set.Sound) (d : Document) (body : Tree) (i : Nat) :
    at? (merge d set body).passes i =
      (existing i (body.makes i) "" set.passes).map
        (mergedPass d (set.explicit ++ body.passStatements) body i) := by
  have hexplicit : ∀ e ∈ set.explicit, (at? set.started e.1).isSome := by
    intro e he
    obtain ⟨p, hp⟩ := Option.isSome_iff_exists.1 (h.explicit e he)
    rw [at?_started_of_at? hp]
    rfl
  rw [at?_merge_started hexplicit, existing, at?_started h]
  congr 1
  simp only [existing, Tree.makes]
  cases at? set.passes i with
  | some p => rfl
  | none => cases i == 0 <;> rfl

theorem isSome_at?_merge (h : set.Sound) (d : Document) (body : Tree) (i : Nat) :
    (at? (merge d set body).passes i).isSome ↔
      (at? set.passes i).isSome ∨ body.makes i = true := by
  rw [at?_merge h, Option.isSome_map, isSome_existing]

theorem nodup_change (hf : ∀ p, (f p).index = p.index) (h : (ps.map (·.index)).Nodup) :
    ((change i code f ps).map (·.index)).Nodup := by
  rw [map_index_change hf]
  split
  · exact h
  · next hi => exact List.nodup_append.2 ⟨h, List.pairwise_singleton _ i, by grind⟩

theorem nodup_statements (d : Document) (ss : List (Setting Tree)) (m : Merge)
    (h : (m.set.passes.map (·.index)).Nodup) :
    ((ss.foldl (Merge.statement d) m).set.passes.map (·.index)).Nodup := by
  induction ss generalizing m with
  | nil => exact h
  | cons s ss ih =>
    refine ih _ ?_
    rw [Merge.statement]
    split
    · exact nodup_change (fun p => index_applyBody d p _) h
    · rw [List.map_map]
      exact h
    · exact h
    · exact h

theorem nodup_reapply (statements : List (Nat × Tree)) (ps : List PassData)
    (h : (ps.map (·.index)).Nodup) :
    ((statements.foldl (fun ps e => change e.1 "" (·.applyStates e.2) ps) ps).map
      (·.index)).Nodup := by
  induction statements generalizing ps with
  | nil => exact h
  | cons e es ih => exact ih _ (nodup_change (fun p => index_applyStates p e.2) h)

theorem nodup_started (h : (set.passes.map (·.index)).Nodup) :
    (set.started.map (·.index)).Nodup := by
  rw [started]
  split
  · exact List.pairwise_singleton _ 0
  · exact h

theorem nodup_merge (h : (set.passes.map (·.index)).Nodup) (d : Document) (body : Tree) :
    ((set.merge d body).passes.map (·.index)).Nodup := by
  have hindex : PassData.index ∘ (fun p => p.applyStates body) = PassData.index :=
    funext fun p => index_applyStates p body
  refine nodup_reapply _ _ ?_
  rw [List.map_map, hindex]
  exact nodup_statements d body.declared _ (nodup_started h)

theorem Sound.merge (h : set.Sound) (d : Document) (body : Tree) : (set.merge d body).Sound where
  nodup := nodup_merge h.nodup d body
  explicit e he := by
    rw [isSome_at?_merge h]
    rcases List.mem_append.1 (explicit_merge d set body ▸ he) with he | he
    · exact .inl (h.explicit e he)
    · exact .inr (makes_of_mem he)
  first _ := (isSome_at?_merge h d body 0).2 (.inr rfl)

end PassSet
end ShaderLang
