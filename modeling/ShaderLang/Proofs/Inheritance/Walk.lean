import Mathlib.Data.List.Perm.Subperm
import ShaderLang.Compile.Technique
import ShaderLang.Proofs.Inheritance.Closure
import ShaderLang.Proofs.Outcome
/-!
# Walks over mixins

A walk goes into each mixin once, where it meets it first. What it gathers comes from the mixins on
the list of chains, each where it stands first, so that the parameters of a shader and its passes
are put together from the same mixins in the same order.

## Main definitions

* `Declaration.newly` — the mixins of a list that are not yet finished, each where it stands first
* `Declaration.Stands` — what a walk has met when it is inside given mixins

## Main results

* `Declaration.walk_spec` — what one walk does
* `Declaration.inherit_eq_ok_iff`, `Declaration.inherit_eq_error_iff` — what is gathered in the end
* `Declaration.inherits_each_once` — parameters and passes are gathered from what is inherited
-/

namespace ShaderLang
namespace Declaration

variable {ds : List Declaration} {d m : Declaration} {name language : String} {i : Nat}
  {path finished met : List Nat} {names : List String} {σ : Type}

/-! ## First occurrences -/

/-- The members of a list that are not yet finished, each where it stands first. -/
def newly (finished met : List Nat) : List Nat := (met.filter (· ∉ finished)).eraseDups

theorem newly_nil (met : List Nat) : newly [] met = met.eraseDups := by
  simp [newly]

theorem newly_append_of_subset {others : List Nat} (h : met ⊆ finished) :
    newly finished (met ++ others) = newly finished others := by
  have hnone : met.filter (· ∉ finished) = [] := by
    rw [List.filter_eq_nil_iff]
    intro i hi
    simpa using h hi
  rw [newly, List.filter_append, hnone, List.nil_append, newly]

theorem newly_append_cons {others : List Nat} (hi : i ∉ finished) (hmet : i ∉ met) :
    newly finished (met ++ i :: others) =
      newly finished met ++ i :: newly (finished ++ (met ++ [i])) others := by
  have hkept : (i :: others).filter (· ∉ finished) = i :: others.filter (· ∉ finished) := by
    rw [List.filter_cons, if_pos (by simpa using hi)]
  have hfirst : i ∉ met.filter (· ∉ finished) := fun h => hmet (List.mem_filter.1 h).1
  -- What follows is new if it was neither finished before nor met by the mixin or before it.
  have hrest : ((others.filter (· ∉ finished)).removeAll (met.filter (· ∉ finished))).filter
      (fun j => !j == i) = others.filter (· ∉ finished ++ (met ++ [i])) := by
    rw [List.removeAll, List.filter_filter, List.filter_filter]
    refine List.filter_congr fun j _ => ?_
    by_cases hj : j ∈ finished <;> by_cases hjmet : j ∈ met <;>
      simp [hj, hjmet, beq_eq_decide]
  rw [newly, List.filter_append, List.eraseDups_append, hkept, List.cons_removeAll]
  simp only [List.contains_eq_mem, hfirst, decide_false, if_true]
  rw [List.eraseDups_cons, hrest, newly, newly]

theorem atPositions_append (is js : List Nat) :
    atPositions ds (is ++ js) = atPositions ds is ++ atPositions ds js :=
  List.filterMap_append

theorem atPositions_cons (h : ds[i]? = some m) (is : List Nat) :
    atPositions ds (i :: is) = m :: atPositions ds is := by
  rw [atPositions, List.filterMap_cons_some h, atPositions]

/-! ## What one walk does -/

/-- A walk that is inside the mixins of a path has met these and has finished others. -/
structure Stands (ds : List Declaration) (path finished visited : List Nat) : Prop where
  mem_iff : ∀ i, i ∈ visited ↔ i ∈ finished ∨ i ∈ path
  nodup : visited.Nodup
  lt : ∀ i ∈ visited, i < ds.length
  closed : Closed ds path finished

/-- A walk that has met all declarations has met every mixin. -/
theorem Stands.mem_of_length_le {visited : List Nat} (h : Stands ds path finished visited)
    (hlen : ds.length ≤ visited.length) (hi : i < ds.length) : i ∈ visited := by
  by_contra hmem
  have hnodup : (i :: visited).Nodup := List.nodup_cons.2 ⟨hmem, h.nodup⟩
  have hsub : i :: visited ⊆ List.range ds.length := by
    intro j hj
    rcases List.mem_cons.1 hj with rfl | hj
    · exact List.mem_range.2 hi
    · exact List.mem_range.2 (h.lt j hj)
  have hle := (List.subperm_of_subset hnodup hsub).length_le
  rw [List.length_cons, List.length_range] at hle
  omega

theorem Stands.enter {visited : List Nat} (h : Stands ds path finished visited)
    (hi : i ∉ visited) (hlt : i < ds.length) : Stands ds (i :: path) finished (i :: visited) where
  mem_iff j := by
    rw [List.mem_cons, List.mem_cons, h.mem_iff]
    exact or_left_comm
  nodup := List.nodup_cons.2 ⟨hi, h.nodup⟩
  lt j hj := by
    rcases List.mem_cons.1 hj with rfl | hj
    · exact hlt
    · exact h.lt j hj
  closed j hj := by
    obtain ⟨m, hm, hknown⟩ := h.closed j hj
    exact ⟨m, hm, hknown.mono fun k => Or.imp_right (List.mem_cons_of_mem _)⟩

theorem Stands.congr {finished' visited : List Nat} (h : Stands ds path finished visited)
    (hmem : ∀ i, i ∈ finished ↔ i ∈ finished') : Stands ds path finished' visited where
  mem_iff i := by rw [h.mem_iff, hmem]
  nodup := h.nodup
  lt := h.lt
  closed i hi := by
    obtain ⟨m, hm, hknown⟩ := h.closed i ((hmem i).2 hi)
    exact ⟨m, hm, hknown.mono fun j => Or.imp_left (hmem j).1⟩

/-- A walk that leaves a mixin has finished it. -/
theorem Stands.leave {visited : List Nat} (h : Stands ds (i :: path) (finished ++ met) visited)
    (hfinished : Closed ds path finished) (hmet : Closed ds path (met ++ [i])) :
    Stands ds path (finished ++ (met ++ [i])) visited where
  mem_iff j := by
    rw [h.mem_iff]
    simp only [List.mem_append, List.mem_cons, List.not_mem_nil, or_false]
    tauto
  nodup := h.nodup
  lt := h.lt
  closed := hfinished.append hmet

/-- The outcome of a walk that has gone along chains. -/
inductive Walked (ds : List Declaration) (gather : σ → Declaration → σ) (path finished : List Nat)
    (w : Walk σ) : Except String (List Nat) → Except String (Walk σ) → Prop
  | stopped (name : String) : Walked ds gather path finished w (.error name) (.error name)
  | ended {met : List Nat} {w' : Walk σ} (h : Stands ds path (finished ++ met) w'.visited)
      (hlen : w.visited.length ≤ w'.visited.length)
      (hgathered : w'.gathered =
        (atPositions ds (newly finished met)).foldl gather w.gathered) :
      Walked ds gather path finished w (.ok met) (.ok w')

theorem walked_error_iff {gather : σ → Declaration → σ} {w : Walk σ}
    {outcome : Except String (Walk σ)} :
    Walked ds gather path finished w (.error name) outcome ↔ outcome = .error name := by
  constructor
  · rintro ⟨⟩
    rfl
  · rintro rfl
    exact .stopped name

/-- A walk that passes by a finished mixin has nothing to gather from its chains. -/
theorem Walked.pass {gather : σ → Declaration → σ} {w : Walk σ} {others : List Nat}
    {outcome : Except String (Walk σ)}
    (h : Walked ds gather path finished w (.ok others) outcome) (hsub : met ++ [i] ⊆ finished) :
    Walked ds gather path finished w (.ok (met ++ i :: others)) outcome := by
  have hsplit : met ++ i :: others = (met ++ [i]) ++ others := by simp
  cases h with
  | ended hstands hlen hgathered =>
    refine .ended (hstands.congr fun j => ?_) hlen ?_
    · rw [hsplit, List.mem_append, List.mem_append, List.mem_append]
      exact ⟨Or.imp_right .inr, fun hj => hj.elim .inl (Or.imp_left (@hsub j))⟩
    · rw [hsplit, newly_append_of_subset hsub, hgathered]

/-- A walk that has been inside a mixin and then goes on. -/
theorem Walked.resume {gather : σ → Declaration → σ} {w w' : Walk σ} {others : List Nat}
    {outcome : Except String (Walk σ)} (hi : i ∉ finished) (hmet : i ∉ met) (hget : ds[i]? = some m)
    (hlen : w.visited.length ≤ w'.visited.length)
    (hgathered : w'.gathered = (atPositions ds (newly finished met)).foldl gather w.gathered)
    (h : Walked ds gather path (finished ++ (met ++ [i])) ⟨w'.visited, gather w'.gathered m⟩
      (.ok others) outcome) :
    Walked ds gather path finished w (.ok (met ++ i :: others)) outcome := by
  cases h with
  | ended hstands hlen' hgathered' =>
    refine .ended ?_ (hlen.trans hlen') ?_
    · simpa using hstands
    · rw [hgathered', hgathered, newly_append_cons hi hmet, atPositions_append,
        atPositions_cons hget, List.foldl_append, List.foldl_cons]

/-- A walk stops at the missing name of the chains that it goes along, or gathers from the mixins
that they meet and that were not finished before. -/
theorem walk_spec (gather : σ → Declaration → σ) {depth : Nat} {w : Walk σ}
    (h : Stands ds path finished w.visited) (hdepth : ds.length ≤ depth + w.visited.length) :
    ∃ r, Chains ds path language names r ∧
      Walked ds gather path finished w r (walk ds gather depth language names w) := by
  fun_induction walk ds gather depth language names w generalizing path finished with
  | case1 depth language w =>
    refine ⟨.ok [], .done, .ended ?_ (Nat.le_refl _) rfl⟩
    rwa [List.append_nil]
  | case2 depth language w name names hnone =>
    exact ⟨_, .missing (unknown_of_findMixin? hnone), .stopped name⟩
  | case3 depth language w name names i hfind hvisited ih =>
    obtain ⟨m, hm⟩ := means_of_findMixin? hfind
    obtain ⟨r, hchains, hwalked⟩ := ih h hdepth
    by_cases hpath : i ∈ path
    · exact ⟨r, .back hm hpath hchains, hwalked⟩
    · -- The mixin is finished, and so is all that its chains would meet again.
      have hfinished : i ∈ finished := ((h.mem_iff i).1 hvisited).resolve_right hpath
      obtain ⟨m', hget, hknown⟩ := h.closed i hfinished
      obtain rfl := Option.some.inj (hm.get.symm.trans hget)
      obtain ⟨met, hmet, hsub⟩ := chains_ok_of_finished h.closed (List.subset_cons_self i path)
        (hknown.mono fun j => Or.imp_right (List.mem_cons_of_mem i))
      cases r with
      | error e =>
        exact ⟨_, .later hm hpath hmet hchains, walked_error_iff.2 (walked_error_iff.1 hwalked)⟩
      | ok others =>
        have hsub' := List.append_subset.2 ⟨hsub, List.cons_subset.2 ⟨hfinished, List.nil_subset _⟩⟩
        exact ⟨_, .into hm hpath hmet hchains, hwalked.pass hsub'⟩
  | case4 language w name names i hfind hnot =>
    -- The depth is used up only when all declarations are visited.
    obtain ⟨m, hm⟩ := means_of_findMixin? hfind
    exact absurd (h.mem_of_length_le (by omega) hm.lt) hnot
  | case5 language w name names i hfind hnot depth mixin missing hinner =>
    rename_i ih
    obtain ⟨m, hm⟩ := means_of_findMixin? hfind
    obtain rfl : mixin = m := by simp [mixin, hm.get]
    -- The walk enters the mixin, which is new on the path, and stops inside.
    have hpath : i ∉ path := fun hmem => hnot ((h.mem_iff i).2 (.inr hmem))
    obtain ⟨r, hchains, hwalked⟩ := ih (h.enter hnot hm.lt) (by simp only [List.length_cons]; omega)
    rw [hinner] at hwalked
    cases hwalked
    exact ⟨_, .failed hm hpath hchains, .stopped missing⟩
  | case6 language w name names i hfind hnot depth mixin w' hinner ihinner =>
    rename_i ihrest
    obtain ⟨m, hm⟩ := means_of_findMixin? hfind
    obtain rfl : mixin = m := by simp [mixin, hm.get]
    have hpath : i ∉ path := fun hmem => hnot ((h.mem_iff i).2 (.inr hmem))
    have hfinished : i ∉ finished := fun hmem => hnot ((h.mem_iff i).2 (.inl hmem))
    obtain ⟨r, hchains, hwalked⟩ :=
      ihinner (h.enter hnot hm.lt) (by simp only [List.length_cons]; omega)
    rw [hinner] at hwalked
    cases hwalked with
    | @ended met _ hstands hlen hgathered =>
      simp only [List.length_cons] at hlen
      -- The mixin is finished now, with all that its chains met, and the walk stands for the rest.
      have hmet : i ∉ met := fun hmem => hchains.not_mem_path met rfl i hmem List.mem_cons_self
      have hclosed : Closed ds path (met ++ [i]) :=
        ((Chains.into hm hpath hchains .done).closed _ rfl).2
      have hdepth' : ds.length ≤ depth + 1 + w'.visited.length := by omega
      obtain ⟨r, hrest, hwalked⟩ := ihrest (hstands.leave h.closed hclosed) hdepth'
      cases r with
      | error e =>
        exact ⟨_, .later hm hpath hchains hrest, walked_error_iff.2 (walked_error_iff.1 hwalked)⟩
      | ok others =>
        exact ⟨_, .into hm hpath hchains hrest,
          hwalked.resume hfinished hmet hm.get (by omega) hgathered⟩

/-! ## What is gathered in the end -/

theorem inherits_unique {is js : List Nat} (h : Inherits ds d is) (h' : Inherits ds d js) :
    is = js := by
  obtain ⟨met, hmet, rfl⟩ := h.order
  obtain ⟨met', hmet', rfl⟩ := h'.order
  rw [Except.ok.inj (hmet.unique hmet')]

/-- The chains of a declaration have an outcome, and it decides what is gathered. -/
theorem exists_chains_inherit (ds : List Declaration) (gather : σ → Declaration → σ) (start : σ)
    (d : Declaration) :
    (∃ is, Inherits ds d is ∧
        inherit ds gather start d = .ok ((atPositions ds is).foldl gather start)) ∨
      ∃ name, Chains ds [] d.language d.includes (.error name) ∧
        inherit ds gather start d = .error name := by
  have hstands : Stands ds [] [] (⟨[], start⟩ : Walk σ).visited :=
    ⟨by simp, List.nodup_nil, by simp, fun i hi => by cases hi⟩
  obtain ⟨r, hchains, hwalked⟩ := walk_spec gather hstands (Nat.le_refl ds.length)
  rw [inherit]
  -- Nothing is finished or on a path at the start, so that all that is met is new.
  generalize walk ds gather ds.length d.language d.includes ⟨[], start⟩ = outcome at hwalked
  cases hwalked with
  | stopped name => exact .inr ⟨name, hchains, rfl⟩
  | @ended met w' _ _ hgathered =>
    rw [newly_nil] at hgathered
    exact .inl ⟨_, hchains.inherits, congrArg Except.ok hgathered⟩

theorem inherit_eq_ok_iff {gather : σ → Declaration → σ} {start s : σ} :
    inherit ds gather start d = .ok s ↔
      ∃ is, Inherits ds d is ∧ s = (atPositions ds is).foldl gather start := by
  -- The chains have exactly one outcome, which excludes the other one.
  rcases exists_chains_inherit ds gather start d with ⟨is, his, h⟩ | ⟨name, hname, h⟩
  · rw [h]
    constructor
    · rintro ⟨⟩
      exact ⟨is, his, rfl⟩
    · rintro ⟨js, hjs, rfl⟩
      rw [inherits_unique his hjs]
  · rw [h]
    constructor
    · rintro ⟨⟩
    · rintro ⟨js, hjs, rfl⟩
      obtain ⟨met, hmet, -⟩ := hjs.order
      cases hname.unique hmet

theorem inherit_eq_error_iff {gather : σ → Declaration → σ} {start : σ} :
    inherit ds gather start d = .error name ↔
      Chains ds [] d.language d.includes (.error name) := by
  rcases exists_chains_inherit ds gather start d with ⟨is, his, h⟩ | ⟨name', hname, h⟩
  · rw [h]
    constructor
    · rintro ⟨⟩
    · intro hname
      obtain ⟨met, hmet, -⟩ := his.order
      cases hname.unique hmet
  · rw [h]
    constructor
    · rintro ⟨⟩
      exact hname
    · intro hname'
      rw [Except.error.inj (hname.unique hname')]

theorem exists_chains_error_iff :
    (∃ name, Chains ds [] d.language d.includes (.error name)) ↔ ∃ name, Missing ds d name := by
  constructor
  · rintro ⟨name, h⟩
    exact ⟨name, missing_of_chains h⟩
  · rintro ⟨name, h⟩
    rcases exists_chains_inherit ds (fun (_ : Unit) _ => ()) () d with
      ⟨is, his, -⟩ | ⟨name', hname, -⟩
    · obtain ⟨met, hmet, -⟩ := his.order
      exact absurd h (not_missing_of_chains hmet name)
    · exact ⟨name', hname⟩

/-! ## Parameters and passes -/

/-- A declaration as it is after the parameters were inherited: a mixin is unchanged, and a shader
has the parameters of the mixins that it inherits from behind its own. -/
def Populated (ds : List Declaration) (d r : Declaration) : Prop :=
  if d.isMixin then r = d
  else ∃ is, Inherits ds d is ∧
    r = { d with variations := d.variations ++ (atPositions ds is).flatMap (·.variations) }

theorem inheritVariations_eq_ok_iff {r : Declaration} (h : d.isMixin = false) :
    inheritVariations ds d = .ok r ↔ Populated ds d r := by
  rw [Populated, if_neg (by simp [h]), inheritVariations]
  constructor
  · intro hr
    cases hout : inherit ds (fun out mixin => out ++ mixin.variations) [] d with
    | error name =>
      rw [hout] at hr
      cases hr
    | ok out =>
      rw [hout] at hr
      cases hr
      obtain ⟨is, his, rfl⟩ := inherit_eq_ok_iff.1 hout
      exact ⟨is, his, by rw [List.flatMap_eq_foldl]⟩
  · rintro ⟨is, his, rfl⟩
    rw [inherit_eq_ok_iff.2 ⟨is, his, rfl⟩, List.flatMap_eq_foldl]
    rfl

theorem inheritVariations_eq_error_iff :
    inheritVariations ds d = .error name ↔
      Chains ds [] d.language d.includes (.error name) := by
  rw [inheritVariations, ← inherit_eq_error_iff]
  cases inherit ds (fun out mixin => out ++ mixin.variations) [] d <;> simp [Except.map]

/-- Passes are merged from the bodies of what is inherited, the own body last. -/
theorem ofDeclaration_eq_ok_iff {doc : Document} {set : PassSet} :
    PassSet.ofDeclaration doc ds d = .ok set ↔
      ∃ is, Inherits ds d is ∧
        set = ((atPositions ds is ++ [d]).map (·.body)).foldl (PassSet.merge doc) .empty := by
  -- The own body is merged behind the fold over what is inherited.
  simp only [List.map_append, List.foldl_append, List.foldl_map, List.map_singleton,
    List.foldl_cons, List.foldl_nil]
  rw [PassSet.ofDeclaration]
  split
  · next name hname =>
    constructor
    · rintro ⟨⟩
    · rintro ⟨is, his, -⟩
      rw [inherit_eq_ok_iff.2 ⟨is, his, rfl⟩] at hname
      cases hname
  · next s hs =>
    obtain ⟨is, his, rfl⟩ := inherit_eq_ok_iff.1 hs
    constructor
    · rintro ⟨⟩
      exact ⟨is, his, rfl⟩
    · rintro ⟨js, hjs, rfl⟩
      rw [inherits_unique his hjs]

theorem ofDeclaration_eq_error_iff {doc : Document} {e : CompileError} :
    PassSet.ofDeclaration doc ds d = .error e ↔
      ∃ name, Chains ds [] d.language d.includes (.error name) ∧ e = .mixinNotFound name := by
  rw [PassSet.ofDeclaration]
  split
  · next name hname =>
    have hchains := inherit_eq_error_iff.1 hname
    constructor
    · rintro ⟨⟩
      exact ⟨name, hchains, rfl⟩
    · rintro ⟨name', hchains', rfl⟩
      rw [Except.error.inj (hchains.unique hchains')]
  · next s hs =>
    constructor
    · rintro ⟨⟩
    · rintro ⟨name, hchains, -⟩
      rw [inherit_eq_error_iff.2 hchains] at hs
      cases hs

/-- What becomes of one declaration. -/
theorem populate_step_eq_ok_iff {r : Declaration} :
    (if d.isMixin then .ok d else inheritVariations ds d : Except String Declaration) = .ok r ↔
      Populated ds d r := by
  cases h : d.isMixin with
  | true => simp [Populated, h, eq_comm]
  | false => exact inheritVariations_eq_ok_iff h

theorem populate_step_eq_error_iff :
    (if d.isMixin then .ok d else inheritVariations ds d : Except String Declaration) =
        .error name ↔
      d.isMixin = false ∧ Chains ds [] d.language d.includes (.error name) := by
  cases h : d.isMixin with
  | true => simp
  | false => simpa using inheritVariations_eq_error_iff

/-- Shaders take the parameters of the mixins that they inherit from, each once and in their order,
unless a shader comes upon a missing name. Its passes are merged from the same mixins in the same
order, and stop at the same name. -/
theorem inherits_each_once (doc : Document) (ds : List Declaration) :
    ((∃ name, populate ds = .error name) ↔
      ∃ d ∈ ds, d.isMixin = false ∧ ∃ name, Missing ds d name) ∧
    (∀ rs, populate ds = .ok rs ↔ List.Forall₂ (Populated ds) ds rs) ∧
    (∀ name, populate ds = .error name ↔
      ∃ before d after, ds = before ++ d :: after ∧
        (∃ rs, List.Forall₂ (Populated ds) before rs) ∧ d.isMixin = false ∧
        PassSet.ofDeclaration doc ds d = .error (.mixinNotFound name)) ∧
    (∀ d set, PassSet.ofDeclaration doc ds d = .ok set ↔
      ∃ is, Inherits ds d is ∧
        set = ((atPositions ds is ++ [d]).map (·.body)).foldl (PassSet.merge doc) .empty) ∧
    ∀ d e, PassSet.ofDeclaration doc ds d = .error e ↔
      ∃ name, Chains ds [] d.language d.includes (.error name) ∧ e = .mixinNotFound name := by
  have hstep {before : List Declaration} {rs : List Declaration} :
      List.Forall₂ (fun d r => (if d.isMixin then .ok d else inheritVariations ds d :
        Except String Declaration) = .ok r) before rs ↔ List.Forall₂ (Populated ds) before rs := by
    simp only [populate_step_eq_ok_iff]
  -- Declarations are populated one after the other, each by itself.
  refine ⟨?_, fun rs => Outcome.mapM_eq_ok_iff.trans hstep, fun name => ?_,
    fun d set => ofDeclaration_eq_ok_iff, fun d e => ofDeclaration_eq_error_iff⟩
  · rw [populate, Outcome.exists_mapM_eq_error_iff]
    simp only [populate_step_eq_error_iff, exists_and_left, exists_chains_error_iff]
  · rw [populate, Outcome.mapM_eq_error_iff]
    simp only [hstep, populate_step_eq_error_iff, ofDeclaration_eq_error_iff,
      CompileError.mixinNotFound.injEq, exists_eq_right']

end Declaration
end ShaderLang
