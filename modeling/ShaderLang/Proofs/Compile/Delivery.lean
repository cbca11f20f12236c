import Mathlib.Data.Set.Functor
import ShaderLang.Proofs.Compile.Settled
import ShaderLang.Proofs.Compile.Steps
/-!
# Jobs at the same time

Jobs that run at the same time deliver their results in any order, each of them once. A compilation
may then come to several results, since of several errors the one that is delivered first is
reported. Shaders do not depend on the order: a compilation comes to a shader in one order just if
it comes to the same shader with one job behind another.

## Main definitions

* `Delivery.arrivals` — what jobs may come to, in every order of delivery
* `Compiler.outcomes` — what a compilation may come to, with an order of its own for each of its
  runs of jobs
* `InAnyOrder` — a computation gives a value in one order just if it does so in sequence

## Main results

* `Delivery.inAnyOrder` — jobs give what they give in sequence
* `InAnyOrder.bind`, `InAnyOrder.mapM` — so do computations that are put together
* `Compiler.compile_of_any_delivery` — so do compilations
-/

namespace ShaderLang

variable {α β : Type}

/-! ## Results that may come -/

/-- The results that a computation may come to. -/
def possible (x : ExceptT CompileError SetM α) : Set (Except CompileError α) := SetM.run x.run

theorem mem_possible_pure {a : α} {r : Except CompileError α} :
    r ∈ possible (pure a) ↔ r = .ok a := Iff.rfl

theorem mem_possible_ofExcept {x r : Except CompileError α} :
    r ∈ possible (ofExcept x) ↔ r = x := by
  cases x <;> rfl

/-- A computation goes on with a value that its first step may come to, or ends with an error. -/
theorem mem_possible_bind {x : ExceptT CompileError SetM α} {f : α → ExceptT CompileError SetM β}
    {r : Except CompileError β} :
    r ∈ possible (x >>= f) ↔
      ∃ s ∈ possible x, match s with
        | .error e => r = .error e
        | .ok a => r ∈ possible (f a) := by
  have hbind : possible (x >>= f) = ⋃ s ∈ possible x, SetM.run (ExceptT.bindCont f s) := rfl
  simp only [hbind, Set.mem_iUnion, exists_prop]
  refine exists_congr fun s => and_congr_right fun _ => ?_
  cases s <;> rfl

/-! ## Computations in any order -/

/-- A computation may go in several ways. One of them is `y`, and a value comes in any way just if
it comes in the way of `z`. -/
structure InAnyOrder (x : ExceptT CompileError SetM α) (y z : ExceptT CompileError Id α) :
    Prop where
  occurs : result y ∈ possible x
  agrees : ∀ r ∈ possible x, ∀ a, r = .ok a ↔ result z = .ok a

namespace InAnyOrder

theorem of_pure (a : α) : InAnyOrder (pure a) (pure a) (pure a) where
  occurs := rfl
  agrees := by
    rintro r hr b
    rw [mem_possible_pure.1 hr]
    rfl

theorem of_ofExcept (x : Except CompileError α) :
    InAnyOrder (ofExcept x) (ofExcept x) (ofExcept x) where
  occurs := by rw [mem_possible_ofExcept, result_ofExcept]
  agrees := by
    rintro r hr b
    rw [mem_possible_ofExcept.1 hr, result_ofExcept]

variable {x : ExceptT CompileError SetM α} {y z : ExceptT CompileError Id α}

theorem bind {f : α → ExceptT CompileError SetM β} {g h : α → ExceptT CompileError Id β}
    (hx : InAnyOrder x y z) (hf : ∀ a, InAnyOrder (f a) (g a) (h a)) :
    InAnyOrder (x >>= f) (y >>= g) (z >>= h) where
  occurs := by
    refine mem_possible_bind.2 ⟨result y, hx.occurs, ?_⟩
    rw [result_bind]
    cases result y with
    | error e => rfl
    | ok a => exact (hf a).occurs
  agrees := by
    intro r hr b
    obtain ⟨s, hs, hr⟩ := mem_possible_bind.1 hr
    rw [result_bind]
    cases s with
    | error e =>
      -- An error in one way is an error in sequence, if perhaps another one.
      obtain rfl : r = .error e := hr
      cases hz : result z with
      | error e' => simp [Except.bind]
      | ok a => exact absurd ((hx.agrees _ hs a).2 hz) (by simp)
    | ok a =>
      rw [(hx.agrees _ hs a).1 rfl]
      exact (hf a).agrees r hr b

theorem mapM {f : α → ExceptT CompileError SetM β} {g h : α → ExceptT CompileError Id β}
    (hf : ∀ a, InAnyOrder (f a) (g a) (h a)) (l : List α) :
    InAnyOrder (l.mapM f) (l.mapM g) (l.mapM h) := by
  induction l with
  | nil =>
    simp only [List.mapM_nil]
    exact of_pure []
  | cons a l ih =>
    simp only [List.mapM_cons]
    exact (hf a).bind fun b => ih.bind fun bs => of_pure (b :: bs)

end InAnyOrder

/-! ## Jobs -/

/-- What jobs may come to. One at a time, they stop at the first error. At the same time, each of
them delivers its result once, and they may be delivered in any order. -/
def Delivery.arrivals (threads : Nat) (jobs : List (ExceptT CompileError Id α)) :
    Set (Except CompileError (List α)) :=
  {r | if threads ≤ 1 ∨ jobs.length ≤ 1 then r = result (jobs.mapM id)
    else ∃ ds : List (Delivery α), ds.Perm ((jobs.map result).mapIdx fun i r => (i, r)) ∧
      r = Delivery.collect ds}

/-- Runs jobs, with their results delivered in any order. -/
def deliver (threads : Nat) (jobs : List (ExceptT CompileError Id α)) :
    ExceptT CompileError SetM (List α) :=
  ExceptT.mk (m := SetM) (Delivery.arrivals threads jobs)

theorem result_mapM_id (jobs : List (ExceptT CompileError Id α)) :
    result (jobs.mapM id) = (jobs.map result).mapM id := by
  rw [result_mapM, List.mapM_map]
  rfl

theorem mapM_id_eq_ok_iff {rs : List (Except CompileError α)} {outs : List α} :
    rs.mapM id = .ok outs ↔ rs = outs.map .ok := by
  rw [Outcome.mapM_eq_ok_iff, ← List.forall₂_eq_eq_eq, List.forall₂_map_right_iff]
  rfl

/-- In any order of delivery, results are put together just if they are in sequence. -/
theorem Delivery.collect_eq_ok_iff {rs : List (Except CompileError α)} {ds : List (Delivery α)}
    (hds : ds.Perm (rs.mapIdx fun i r => (i, r))) {outs : List α} :
    collect ds = .ok outs ↔ rs.mapM id = .ok outs := by
  rw [mapM_id_eq_ok_iff]
  refine ⟨eq_of_collect hds, ?_⟩
  rintro rfl
  -- Every result that comes is a value, and so there are values to put in order.
  have hvalues : ∀ d ∈ ds, ∃ e, d.2.map (d.1, ·) = .ok e := by
    intro d hd
    obtain ⟨i, hi, rfl⟩ := List.mem_mapIdx.1 (hds.mem_iff.1 hd)
    rw [List.getElem_map]
    exact ⟨_, rfl⟩
  obtain ⟨es, hes⟩ := Outcome.exists_mapM_eq_ok_iff.2 hvalues
  have hcollect : collect ds = .ok ((es.mergeSort fun a b => a.1 ≤ b.1).map (·.2)) :=
    Outcome.map_eq_ok_iff.2 ⟨es, hes, rfl⟩
  rw [hcollect, List.map_injective_iff.2 (fun _ _ => Except.ok.inj) (eq_of_collect hds hcollect)]

example : (Delivery.collect [(1, .ok "b"), (0, .ok "a")]).toOption = some ["a", "b"] := by cbv

theorem result_runJobs (threads : Nat) (jobs : List (ExceptT CompileError Id α)) :
    result (runJobs threads jobs) =
      if threads ≤ 1 ∨ jobs.length ≤ 1 then result (jobs.mapM id)
      else Delivery.collect ((jobs.map result).mapIdx fun i r => (i, r)) := by
  rw [runJobs]
  split
  · rfl
  · show Delivery.collect ((jobs.mapM ExceptT.run).run.mapIdx fun i r => (i, r)) = _
    rw [List.idRun_mapM]
    rfl

/-- In any order of delivery, jobs give what they give one behind another. -/
theorem Delivery.inAnyOrder (threads : Nat) (jobs : List (ExceptT CompileError Id α)) :
    InAnyOrder (deliver threads jobs) (runJobs threads jobs) (runJobs 1 jobs) where
  occurs := by
    show result (runJobs threads jobs) ∈ arrivals threads jobs
    rw [result_runJobs, arrivals, Set.mem_ofPred_eq]
    split
    · rfl
    · exact ⟨_, .refl _, rfl⟩
  agrees := by
    intro r hr outs
    rw [result_runJobs, if_pos (.inl (Nat.le_refl 1))]
    replace hr : r ∈ arrivals threads jobs := hr
    rw [arrivals, Set.mem_ofPred_eq] at hr
    split at hr
    -- On one thread there is one order; on several the results are put in order before they are
    -- looked at.
    · rw [hr]
    · obtain ⟨ds, hds, rfl⟩ := hr
      rw [result_mapM_id]
      exact collect_eq_ok_iff hds

/-! ## Compilations -/

namespace Compiler

/-- What a compilation may come to. Each of its runs of jobs has an order of delivery of its own. -/
def outcomes (c : Compiler Id) (name source : String) : Set (Except CompileError Shader) :=
  possible (c.compileToBy (deliver c.config.threads) nestingLimit name source c.config.defines)

/-- The compiler with another number of threads. -/
def withThreads (c : Compiler Id) (threads : Nat) : Compiler Id :=
  { c with config := { c.config with threads := threads } }

variable (c : Compiler Id)

theorem buildShaders_withThreads (threads : Nat) (d : Document) (ds : List Declaration)
    (v : Variation) (shaders : List Declaration) :
    buildShaders (c.withThreads threads) d ds v shaders = buildShaders c d ds v shaders := by
  induction shaders with
  | nil => rfl
  | cons shader shaders ih =>
    simp only [buildShaders, ih]
    rfl

theorem run_withThreads (threads : Nat) (source : String) (defines : Table String) (j : Job) :
    j.run (c.withThreads threads) source defines = j.run c source defines := by
  simp only [Job.run, buildShaders_withThreads]
  rfl

theorem compileToBy_withThreads (run : List (ExceptT CompileError Id JobOutput) →
    ExceptT CompileError Id (List JobOutput)) (threads depth : Nat) (name source : String)
    (defines : Table String) :
    (c.withThreads threads).compileToBy run depth name source defines =
      c.compileToBy run depth name source defines := by
  induction depth generalizing name source defines with
  | zero => rfl
  | succ depth ih =>
    simp only [compileToBy, compileOwnBy, ih, run_withThreads]
    rfl

/-- Compilations give what they give with one job behind another. -/
theorem inAnyOrder_compileToBy (threads depth : Nat) (name source : String)
    (defines : Table String) :
    InAnyOrder (c.compileToBy (deliver threads) depth name source defines)
      (c.compileToBy (runJobs threads) depth name source defines)
      (c.compileToBy (runJobs 1) depth name source defines) := by
  induction depth generalizing name source defines with
  | zero => exact .of_ofExcept (.error _)
  | succ depth ih =>
    refine .bind ?_ fun own => .bind ?_ fun subShaders => .of_pure _
    · refine .bind (.of_ofExcept _) fun d => .bind (.of_ofExcept _) fun populated => ?_
      refine .bind (Delivery.inAnyOrder ..) fun outputs => .bind (.of_ofExcept _) fun shader => ?_
      dsimp only
      split
      · exact .bind (.of_ofExcept _) fun _ => .of_pure _
      · exact .of_pure _
    · refine .mapM (fun slot => .bind (.of_ofExcept _) fun points => ?_) _
      exact .mapM (fun p => .bind (ih ..) fun shader => .of_pure _) points

/-- Jobs come to a list of outputs in one order of delivery just if they come to the same list with
one job behind another, and a compilation comes to a shader, for every number of threads and with
every order of delivery in each of its runs of jobs, just if it comes to the same shader with one
thread. What is reported in their own order is among what may come. -/
theorem compile_of_any_delivery :
    (∀ (α : Type) (threads : Nat) (jobs : List (ExceptT CompileError Id α)),
      result (runJobs threads jobs) ∈ Delivery.arrivals threads jobs ∧
      ∀ r ∈ Delivery.arrivals threads jobs, ∀ outs,
        r = .ok outs ↔ result (runJobs 1 jobs) = .ok outs) ∧
    ∀ name source,
      result (c.compile name source) ∈ c.outcomes name source ∧
      ∀ r ∈ c.outcomes name source, ∀ shader,
        r = .ok shader ↔ result ((c.withThreads 1).compile name source) = .ok shader := by
  refine ⟨fun α threads jobs => ?_, fun name source => ?_⟩
  · obtain ⟨hoccurs, hagrees⟩ := Delivery.inAnyOrder threads jobs
    exact ⟨hoccurs, hagrees⟩
  -- The sequential compilation is the one in which all jobs run one behind another.
  · have h := c.inAnyOrder_compileToBy c.config.threads nestingLimit name source c.config.defines
    have hsequential : (c.withThreads 1).compile name source =
        c.compileToBy (runJobs 1) nestingLimit name source c.config.defines :=
      c.compileToBy_withThreads (runJobs 1) 1 nestingLimit name source c.config.defines
    rw [hsequential]
    exact ⟨h.occurs, h.agrees⟩

end Compiler
end ShaderLang
