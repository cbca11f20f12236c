import ShaderLang.Proofs.Inheritance.Walk
import ShaderLang.Proofs.Render.Assembly
/-!
# What passes share

The code and the states at the level of a body go to the passes there are at its merge, and to those
that the body itself makes. A pass therefore shares what the bodies have, from the first that makes
it on. The pass of number zero is made by whatever is merged first and shares everything; a pass that
only a later body makes goes without what has been merged before.

## Main definitions

* `PassSet.Shares` — a pass has the shared code and states of bodies

## Main results

* `PassSet.shares_of_made` — each pass of a shader shares with the bodies since it was made
* `PassSet.late_pass_misses_shared` — and goes without what was merged before
-/

namespace ShaderLang

/-- The statement, if a contribution is code at the level of the body. -/
def Contribution.shared? : Contribution → Option Tree
  | shared statement => some statement
  | own _ => none

/-- The body of the statement, if a contribution is a `pass` statement. -/
def Contribution.own? : Contribution → Option Tree
  | shared _ => none
  | own body => some body

namespace PassSet

variable {i : Nat}

/-- A pass has the shared code and states of bodies. Its code is what the bodies contribute to the
pass of its number: each of their `code` statements once, in order, and between them the code of
their `pass` statements for the number, each of these once and in order as well. A field that no
`pass` statement for it writes, of those in `all` bodies, has the last value that the bodies write
to it, or else the standard one. -/
structure Shares (doc : Document) (all bodies : List Tree) (p : PassData) : Prop where
  code : p.code = String.join
    ((bodies.flatMap (·.contributions p.index)).map (Contribution.code doc))
  shared : (bodies.flatMap (·.contributions p.index)).filterMap Contribution.shared? =
    bodies.flatMap Tree.codeStatements
  own : (bodies.flatMap (·.contributions p.index)).filterMap Contribution.own? =
    statementsFor p.index (bodies.flatMap Tree.passStatements)
  states : ∀ f, (explicitWrites p.index all).last? f = none →
    p.get f = ((writesOf bodies).last? f).getD (PassStates.standard.get f)

/-- A body contributes each of its `code` statements once. -/
theorem shared_contributionsFrom (next : Nat) (ss : List (Setting Tree)) :
    (contributionsFrom i next ss).filterMap Contribution.shared? =
      ss.filterMap Setting.codeStatement? := by
  induction ss generalizing next with
  | nil => rfl
  | cons s ss ih =>
    obtain ⟨kind, value⟩ := s
    simp only [contributionsFrom]
    -- A `pass` statement contributes nothing that is shared, for whatever pass it is.
    split
    · next statement =>
      rw [List.filterMap_cons_none rfl]
      split
      · rw [List.filterMap_cons_none rfl, ih]
      · exact ih _
    · next statement =>
      simp [Contribution.shared?, Setting.codeStatement?, ih]
    · next hcode =>
      rw [List.filterMap_cons_none (by simp only [Setting.codeStatement?]), ih]

theorem shared_contributions (bodies : List Tree) :
    (bodies.flatMap (·.contributions i)).filterMap Contribution.shared? =
      bodies.flatMap Tree.codeStatements := by
  simp only [List.filterMap_flatMap, Tree.contributions, shared_contributionsFrom]
  rfl

/-- A body contributes each of its `pass` statements for a number to the pass of the number, once,
and no other one. -/
theorem own_contributionsFrom (next : Nat) (ss : List (Setting Tree)) :
    (contributionsFrom i next ss).filterMap Contribution.own? =
      statementsFor i (numbered next ss) := by
  induction ss generalizing next with
  | nil => rfl
  | cons s ss ih =>
    obtain ⟨kind, value⟩ := s
    simp only [contributionsFrom]
    split
    · next statement =>
      by_cases hi : passIndex statement next = i
      · simp [numbered, statementsFor, hi, Contribution.own?, ih]
      · simp [numbered, statementsFor, hi, ih]
    · next statement =>
      rw [List.filterMap_cons_none rfl, ih]
      rfl
    · simp only [numbered]
      exact ih next

theorem own_contributions (bodies : List Tree) :
    (bodies.flatMap (·.contributions i)).filterMap Contribution.own? =
      statementsFor i (bodies.flatMap Tree.passStatements) := by
  simp only [List.filterMap_flatMap, Tree.contributions, own_contributionsFrom, statementsFor,
    List.filter_flatMap, List.map_flatMap]
  rfl

theorem Assembled.shares {doc : Document} {bodies : List Tree} {p : PassData}
    (h : Assembled doc bodies p.index p) : Shares doc bodies (madeFrom p.index bodies) p where
  code := h.code
  shared := shared_contributions _
  own := own_contributions _
  states f hf := by rw [h.states, hf, Option.getD_none]

/-- Each pass of a shader has the shared code and states of the bodies merged since it was made:
those of the mixins that the shader inherits from, in order, and its own. This is all of them if the
first of them makes the pass, as it does the one of number zero. -/
theorem shares_of_made {doc : Document} {ds : List Declaration} {d : Declaration} {set : PassSet}
    (h : PassSet.ofDeclaration doc ds d = .ok set) :
    ∃ is, Declaration.Inherits ds d is ∧ ∃ first others,
      (Declaration.atPositions ds is ++ [d]).map (·.body) = first :: others ∧
      ∀ p ∈ set.passes,
        Shares doc (first :: others) (madeFrom p.index (first :: others)) p ∧
        (first.makes p.index = true → madeFrom p.index (first :: others) = first :: others) := by
  obtain ⟨is, his, hset⟩ := Declaration.ofDeclaration_eq_ok_iff.1 h
  refine ⟨is, his, ?_⟩
  cases hbodies : (Declaration.atPositions ds is ++ [d]).map (·.body) with
  | nil => simp at hbodies
  | cons first others =>
    refine ⟨first, others, rfl, fun p hp => ⟨?_, fun hmakes => ?_⟩⟩
    · have hsound := sound_ofBodies doc (first :: others)
      rw [hset, hbodies] at hp
      exact (assembled (hsound.at?_of_mem hp)).shares
    · rw [madeFrom, List.dropWhile_cons_of_neg (by simp [hmakes])]

/-- A mixin that makes the pass of number one, and a shader that inherits from it. -/
theorem shares_of_made_mixin :
    ∃ doc d set, PassSet.ofDeclaration doc (Catalog.ofDocument doc).declarations d = .ok set ∧
      set.passes.map (fun p => (p.index, p.raster.cullMode)) = [(0, .none), (1, .none)] ∧
      ∃ is, Declaration.Inherits (Catalog.ofDocument doc).declarations d is ∧ ∃ first others,
        (Declaration.atPositions (Catalog.ofDocument doc).declarations is ++ [d]).map (·.body) =
          first :: others ∧
        ∀ p ∈ set.passes,
          Shares doc (first :: others) (madeFrom p.index (first :: others)) p ∧
          (first.makes p.index = true →
            madeFrom p.index (first :: others) = first :: others) := by
  have hread : ((Document.read
      ("mixin M \x7b raster \x7b cull = none \x7d pass \x7b index = 1 \x7d \x7d " ++
        "shader S \x7b mixin M \x7d") .empty fun _ => none).toOption.bind fun doc =>
        (Catalog.ofDocument doc).declarations.getLast?.bind fun d =>
          (PassSet.ofDeclaration doc (Catalog.ofDocument doc).declarations d).toOption.map
            fun set => set.passes.map fun p => (p.index, p.raster.cullMode)) =
      some [(0, .none), (1, .none)] := by decide +kernel
  obtain ⟨doc, -, hdoc⟩ := Option.bind_eq_some_iff.1 hread
  obtain ⟨d, -, hd⟩ := Option.bind_eq_some_iff.1 hdoc
  obtain ⟨set, hset, hpasses⟩ := Option.map_eq_some_iff.1 hd
  have h := Outcome.toOption_eq_some_iff.1 hset
  exact ⟨doc, d, set, h, hpasses, shares_of_made h⟩

/-- The second pass is made by the shader alone. It goes without the culling that the mixin shares,
although no `pass` statement says anything of it. -/
theorem late_pass_misses_shared :
    ((Document.read
      ("mixin M \x7b raster \x7b cull = none \x7d \x7d " ++
        "shader S \x7b mixin M pass \x7b index = 1 \x7d \x7d") .empty
      fun _ => none).toOption.bind fun doc =>
        (Catalog.ofDocument doc).declarations.getLast?.bind fun d =>
          (PassSet.ofDeclaration doc (Catalog.ofDocument doc).declarations d).toOption.map
            fun set => set.passes.map fun p => (p.index, p.raster.cullMode)) =
      some [(0, .none), (1, .counterClockwise)] := by decide +kernel

end PassSet
end ShaderLang
