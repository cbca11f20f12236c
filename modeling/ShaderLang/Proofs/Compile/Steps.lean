import Mathlib.Data.List.Nodup
import Mathlib.Data.List.Perm.Basic
import ShaderLang.Compile.Compiler
import ShaderLang.Proofs.Outcome
/-!
# What a computation gives

A converter may keep a state and change it with every request, so that a compilation runs in a state
and either fails or gives a value. What is given is taken apart here along the steps of a
computation. The jobs of a compilation may run at the same time; what they give comes in their order
all the same.

## Main definitions

* `Gives` — a computation gives a value, from some state
* `GivesAlike` — whatever two computations give is related

## Main results

* `Gives.bind`, `Gives.of_mapM` — what the steps of a computation give
* `Delivery.eq_of_collect` — results delivered in any order are put into that of their jobs
* `Gives.of_runJobs` — what jobs give, one behind another or at the same time
* `GivesAlike.bind`, `GivesAlike.mapM` — two computations are compared step by step
-/

namespace ShaderLang

variable {σ α β : Type}

/-- A computation that starts with a step goes on with what the step comes to. -/
theorem run_bind_of_ok {x : ExceptT CompileError (StateM σ) α}
    {f : α → ExceptT CompileError (StateM σ) β} {start stop : σ} {a : α}
    (h : x.run.run start = (.ok a, stop)) : (x >>= f).run.run start = (f a).run.run stop := by
  rw [ExceptT.run_bind, StateT.run_bind, h]
  rfl

/-- A step that fails ends the computation. -/
theorem run_bind_of_error {x : ExceptT CompileError (StateM σ) α}
    {f : α → ExceptT CompileError (StateM σ) β} {start stop : σ} {e : CompileError}
    (h : x.run.run start = (.error e, stop)) : (x >>= f).run.run start = (.error e, stop) := by
  rw [ExceptT.run_bind, StateT.run_bind, h]
  rfl

/-- A computation gives a value if it is started in the right state. -/
def Gives (x : ExceptT CompileError (StateM σ) α) (a : α) : Prop :=
  ∃ start stop, x.run.run start = (.ok a, stop)

namespace Gives

variable {x : ExceptT CompileError (StateM σ) α} {a : α} {b : β}

theorem of_pure {c : α} (h : Gives (pure c : ExceptT CompileError (StateM σ) α) a) : c = a := by
  obtain ⟨start, stop, h⟩ := h
  cases h
  rfl

theorem not_throw (e : CompileError) :
    ¬ Gives (throw e : ExceptT CompileError (StateM σ) α) a := by
  rintro ⟨start, stop, h⟩
  cases h

theorem of_ofExcept {e : Except CompileError α}
    (h : Gives (ofExcept e : ExceptT CompileError (StateM σ) α) a) : e = .ok a := by
  obtain ⟨start, stop, h⟩ := h
  cases e with
  | error e => cases h
  | ok c =>
    cases h
    rfl

theorem of_toOption {start : σ} (h : (x.run.run start).1.toOption = some a) : Gives x a :=
  ⟨start, (x.run.run start).2, Prod.ext (Outcome.toOption_eq_some_iff.1 h) rfl⟩

/-- What two steps give comes from what the first one gives. -/
theorem bind {f : α → ExceptT CompileError (StateM σ) β} (h : Gives (x >>= f) b) :
    ∃ a, Gives x a ∧ Gives (f a) b := by
  obtain ⟨start, stop, h⟩ := h
  rcases hx : x.run.run start with ⟨e | a, mid⟩
  · rw [run_bind_of_error hx] at h
    cases h
  · rw [run_bind_of_ok hx] at h
    exact ⟨a, ⟨start, mid, hx⟩, mid, stop, h⟩

/-- Each member of a list gives a value of its own. -/
theorem of_mapM {f : α → ExceptT CompileError (StateM σ) β} {l : List α} {bs : List β}
    (h : Gives (l.mapM f) bs) : List.Forall₂ (fun a b => Gives (f a) b) l bs := by
  induction l generalizing bs with
  | nil =>
    rw [List.mapM_nil] at h
    rw [← of_pure h]
    exact .nil
  | cons a l ih =>
    rw [List.mapM_cons] at h
    obtain ⟨b, hb, h⟩ := h.bind
    obtain ⟨others, hothers, h⟩ := h.bind
    rw [← of_pure h]
    exact .cons hb (ih hothers)

end Gives

/-! ## Jobs -/

/-- Results with numbers in a row, if all are values. -/
theorem Delivery.of_numbered {rs : List (Except CompileError α)} {outputs : List (Nat × α)}
    {start : Nat}
    (h : ((rs.zipIdx start).map fun r => (r.2, r.1)).mapM (fun d => d.2.map (d.1, ·)) =
      .ok outputs) :
    rs = outputs.map (.ok ·.2) ∧ outputs.map (·.1) = List.range' start rs.length := by
  induction rs generalizing start outputs with
  | nil =>
    cases h
    exact ⟨rfl, rfl⟩
  | cons r rs ih =>
    rw [List.zipIdx_cons, List.map_cons, Outcome.mapM_eq_ok_iff] at h
    obtain ⟨output, others, hfirst, hothers, rfl⟩ := List.forall₂_cons_left_iff.1 h
    obtain ⟨hrs, hnumbers⟩ := ih (Outcome.mapM_eq_ok_iff.2 hothers)
    obtain ⟨a, hr, rfl⟩ := Outcome.map_eq_ok_iff.1 hfirst
    rw [List.map_cons, ← hrs, List.map_cons, hnumbers]
    exact ⟨congrArg (· :: rs) hr, rfl⟩

/-- Results are put back into the order of their jobs, in whatever order they come. -/
theorem Delivery.eq_of_collect {rs : List (Except CompileError α)} {ds : List (Delivery α)}
    {outs : List α} (hds : ds.Perm (rs.mapIdx fun i r => (i, r))) (h : collect ds = .ok outs) :
    rs = outs.map .ok := by
  rw [List.mapIdx_eq_zipIdx_map] at hds
  obtain ⟨came, hcame, rfl⟩ := Outcome.map_eq_ok_iff.1 h
  -- Each result comes with its number, so that the same values can be had in order.
  have hcame := Outcome.mapM_eq_ok_iff.1 hcame
  obtain ⟨outputs, houtputs, hperm⟩ : ∃ outputs, List.Forall₂ _ _ outputs ∧ outputs.Perm came := by
    have hcomp : Relation.Comp List.Perm (List.Forall₂ _) _ came := ⟨ds, hds.symm, hcame⟩
    rwa [← List.forall₂_comp_perm_eq_perm_comp_forall₂] at hcomp
  obtain ⟨hrs, hnumbers⟩ := of_numbered (Outcome.mapM_eq_ok_iff.2 houtputs)
  -- The numbers ascend, so that sorting by them gives this order again.
  have hsorted : outputs.Pairwise fun a b => decide (a.1 ≤ b.1) = true := by
    have hranged : (outputs.map (·.1)).Pairwise (· ≤ ·) := hnumbers ▸ List.pairwise_le_range' 1
    simpa only [decide_eq_true_eq] using List.pairwise_map.1 hranged
  have hunique : (outputs.map (·.1)).Nodup := hnumbers ▸ List.nodup_range'
  have hsort : came.mergeSort (fun a b => a.1 ≤ b.1) = outputs := by
    refine List.Perm.eq_of_pairwise (fun a b ha hb hab hba => ?_) (List.pairwise_mergeSort ?_ ?_ _)
      hsorted ((List.mergeSort_perm _ _).trans hperm.symm)
    · have hmem := hperm.mem_iff.2 (List.mem_mergeSort.1 ha)
      exact List.inj_on_of_nodup_map hunique hmem hb (by grind)
    · grind
    · grind
  rw [hsort, hrs, List.map_map]
  rfl

theorem run_bind {x : StateM σ α} {f : α → StateM σ β} {b : β} {start stop : σ}
    (h : (x >>= f).run start = (b, stop)) :
    ∃ a mid, x.run start = (a, mid) ∧ (f a).run mid = (b, stop) :=
  ⟨_, _, rfl, h⟩

/-- What jobs come to when none stops the others. -/
theorem run_mapM {jobs : List (ExceptT CompileError (StateM σ) α)}
    {results : List (Except CompileError α)} {start stop : σ}
    (h : (jobs.mapM ExceptT.run).run start = (results, stop)) :
    List.Forall₂ (fun job r => ∃ start stop, job.run.run start = (r, stop)) jobs results := by
  induction jobs generalizing start results with
  | nil =>
    rw [List.mapM_nil] at h
    cases h
    exact .nil
  | cons job jobs ih =>
    rw [List.mapM_cons] at h
    obtain ⟨r, mid, hjob, h⟩ := run_bind h
    obtain ⟨others, mid', hjobs, h⟩ := run_bind h
    cases h
    exact .cons ⟨start, mid, hjob⟩ (ih hjobs)

/-- Jobs give what each of them gives, also when they run at the same time. -/
theorem Gives.of_runJobs {threads : Nat} {jobs : List (ExceptT CompileError (StateM σ) α)}
    {outs : List α} (h : Gives (runJobs threads jobs) outs) : List.Forall₂ Gives jobs outs := by
  rw [runJobs] at h
  split at h
  · exact of_mapM h
  -- Run at the same time, each job comes to a result of its own, and all of these are values.
  · obtain ⟨start, stop, h⟩ := h
    obtain ⟨results, mid, hjobs, h⟩ := run_bind h
    have hcollect := congrArg Prod.fst h
    rw [Delivery.eq_of_collect (.refl _) hcollect] at hjobs
    have hresults := run_mapM hjobs
    rw [List.forall₂_map_right_iff] at hresults
    exact hresults

/-! ## Two computations -/

/-- Whatever two computations give is related, also if they start in different states. -/
def GivesAlike (R : α → β → Prop) (x : ExceptT CompileError (StateM σ) α)
    (y : ExceptT CompileError (StateM σ) β) : Prop :=
  ∀ a b, Gives x a → Gives y b → R a b

namespace GivesAlike

variable {R : α → β → Prop} {x : ExceptT CompileError (StateM σ) α}
  {y : ExceptT CompileError (StateM σ) β}

theorem pure {a : α} {b : β} (h : R a b) :
    GivesAlike R (pure a : ExceptT CompileError (StateM σ) α) (pure b) := by
  intro a' b' ha hb
  cases ha.of_pure
  cases hb.of_pure
  exact h

theorem throw (e : CompileError) (y : ExceptT CompileError (StateM σ) β) :
    GivesAlike R (throw e) y :=
  fun _ _ h => absurd h (Gives.not_throw e)

theorem ofExcept (e : Except CompileError α) :
    GivesAlike (fun a b => a = b ∧ e = .ok a)
      (ofExcept e : ExceptT CompileError (StateM σ) α) (ofExcept e) :=
  fun _ _ h h' => ⟨Except.ok.inj (h.of_ofExcept.symm.trans h'.of_ofExcept), h.of_ofExcept⟩

/-- What steps in pairs give is related if this is so of what the first pair gives. -/
theorem bind {α' β' : Type} {S : α' → β' → Prop} {f : α → ExceptT CompileError (StateM σ) α'}
    {g : β → ExceptT CompileError (StateM σ) β'} (h : GivesAlike R x y)
    (hfg : ∀ a b, R a b → GivesAlike S (f a) (g b)) : GivesAlike S (x >>= f) (y >>= g) := by
  intro a' b' ha' hb'
  obtain ⟨a, ha, ha'⟩ := ha'.bind
  obtain ⟨b, hb, hb'⟩ := hb'.bind
  exact hfg a b (h a b ha hb) a' b' ha' hb'

theorem forall₂ {xs : List (ExceptT CompileError (StateM σ) α)}
    {ys : List (ExceptT CompileError (StateM σ) β)} {as : List α} {bs : List β}
    (h : List.Forall₂ (GivesAlike R) xs ys) (ha : List.Forall₂ Gives xs as)
    (hb : List.Forall₂ Gives ys bs) : List.Forall₂ R as bs := by
  induction h generalizing as bs with
  | nil =>
    cases ha
    cases hb
    exact .nil
  | cons hxy _ ih =>
    obtain ⟨a, as, hx, hxs, rfl⟩ := List.forall₂_cons_left_iff.1 ha
    obtain ⟨b, bs, hy, hys, rfl⟩ := List.forall₂_cons_left_iff.1 hb
    exact .cons (hxy a b hx hy) (ih hxs hys)

theorem mapM {γ : Type} {f : γ → ExceptT CompileError (StateM σ) α}
    {g : γ → ExceptT CompileError (StateM σ) β} (h : ∀ c, GivesAlike R (f c) (g c)) (l : List γ) :
    GivesAlike (List.Forall₂ R) (l.mapM f) (l.mapM g) := by
  intro as bs has hbs
  have hall : List.Forall₂ (GivesAlike R) (l.map f) (l.map g) := by
    rw [List.forall₂_map_left_iff, List.forall₂_map_right_iff, List.forall₂_same]
    exact fun c _ => h c
  refine forall₂ hall ?_ ?_
  · exact List.forall₂_map_left_iff.2 has.of_mapM
  · exact List.forall₂_map_left_iff.2 hbs.of_mapM

end GivesAlike
end ShaderLang
