import Mathlib.Data.List.Induction
import ShaderLang.Proofs.Param.Strictness
/-!
# Results that nesting leaves alone

A compilation allows sub-shaders up to a depth, and where they are nested deeper it says so. This
is the one result that a greater depth could change; every other one is settled. Nothing but the
nesting itself comes to it: a shader without its sub-shaders has a settled result, whatever it is.

A converter that keeps no state answers each request by itself, so that a computation comes to one
result.

## Main definitions

* `result` — what a computation without a state comes to
* `Settled` — a result other than that sub-shaders are nested too deep
* `ComesTo` — a walk over a list comes to a member, if those before it let it pass

## Main results

* `settled_mapM_iff` — a list has a settled result just if every member that the walk comes to has
* `Compiler.settled_compileOwn` — a shader without its sub-shaders has a settled result
-/

namespace ShaderLang

variable {α β : Type}

/-! ## Computations without a state -/

/-- What a computation without a state comes to. -/
def result (x : ExceptT CompileError Id α) : Except CompileError α := x.run.run

theorem result_pure (a : α) : result (pure a) = .ok a := rfl

theorem result_ofExcept (x : Except CompileError α) : result (ofExcept x) = x := by
  cases x <;> rfl

theorem result_bind (x : ExceptT CompileError Id α) (f : α → ExceptT CompileError Id β) :
    result (x >>= f) = (result x).bind fun a => result (f a) := by
  rw [result, result, ExceptT.run_bind, Id.run_bind]
  cases x.run.run <;> rfl

theorem result_mapM (f : α → ExceptT CompileError Id β) (l : List α) :
    result (l.mapM f) = l.mapM fun a => result (f a) := by
  induction l with
  | nil => rfl
  | cons a l ih =>
    rw [List.mapM_cons, Outcome.mapM_cons, result_bind, ← ih]
    congr 1
    funext b
    rw [result_bind]
    cases result (l.mapM f) <;> rfl

/-! ## Walks over lists -/

/-- A walk over a list comes to a member if all before it let it pass. -/
def ComesTo (Passes : α → Prop) (l : List α) (a : α) : Prop :=
  ∃ before after, l = before ++ a :: after ∧ ∀ b ∈ before, Passes b

namespace ComesTo

variable {P Q : α → Prop} {l : List α} {a : α}

theorem mem (h : ComesTo P l a) : a ∈ l := by
  obtain ⟨before, after, rfl, -⟩ := h
  exact List.mem_append_right _ (List.mem_cons_self ..)

theorem imp (h : ComesTo P l a) (hPQ : ∀ b, P b → Q b) : ComesTo Q l a := by
  obtain ⟨before, after, hl, hbefore⟩ := h
  exact ⟨before, after, hl, fun b hb => hPQ b (hbefore b hb)⟩

theorem of_forall (h : ∀ b ∈ l, P b) (ha : a ∈ l) : ComesTo P l a := by
  obtain ⟨before, after, rfl⟩ := List.append_of_mem ha
  exact ⟨before, after, rfl, fun b hb => h b (List.mem_append_left _ hb)⟩

/-- A member that lets pass is needed to do so in another way only where a walk comes to it that
way. -/
theorem of_passes (h : ComesTo P l a) (hl : ∀ b, ComesTo Q l b → P b → Q b) : ComesTo Q l a := by
  obtain ⟨before, after, rfl, hbefore⟩ := h
  refine ⟨before, after, rfl, ?_⟩
  induction before using List.reverseRecOn generalizing a after with
  | nil => exact nofun
  | append_singleton before b ih =>
    rw [List.append_assoc] at hl
    obtain ⟨hearlier, hb⟩ := List.forall_mem_append.1 hbefore
    have hQ := ih (a :: after) hearlier hl
    refine List.forall_mem_append.2 ⟨hQ, List.forall_mem_singleton.2 ?_⟩
    exact hl b ⟨before, a :: after, rfl, hQ⟩ (List.forall_mem_singleton.1 hb)

end ComesTo

/-! ## Settled results -/

/-- A result is settled unless it is that sub-shaders are nested too deep. -/
def Settled : Except CompileError α → Prop
  | .error (.nestingTooDeep _) => False
  | _ => True

theorem settled_iff {r : Except CompileError α} :
    Settled r ↔ ∀ name, r ≠ .error (.nestingTooDeep name) := by
  rcases r with e | a
  · cases e <;> simp [Settled]
  · simp [Settled]

theorem settled_ok (a : α) : Settled (.ok a : Except CompileError α) := trivial

theorem settled_bind_iff {x : Except CompileError α} {f : α → Except CompileError β} :
    Settled (x.bind f) ↔ Settled x ∧ ∀ a, x = .ok a → Settled (f a) := by
  cases x <;> simp [settled_iff, Except.bind]

theorem settled_map_iff {x : Except CompileError α} {f : α → β} :
    Settled (x.map f) ↔ Settled x := by
  cases x <;> simp [settled_iff, Except.map]

theorem settled_mapError {ε : Type} {x : Except ε α} {g : ε → CompileError}
    (h : ∀ e name, g e ≠ .nestingTooDeep name) : Settled (x.mapError g) := by
  cases x with
  | ok a => exact settled_ok a
  | error e => exact settled_iff.2 fun name heq => h e name (Except.error.inj heq)

section

variable {f g : α → Except CompileError β} {l : List α}

/-- The result for a list is that of the first member without a value. -/
theorem settled_mapM_iff :
    Settled (l.mapM f) ↔ ∀ a, ComesTo (fun b => ∃ r, f b = .ok r) l a → Settled (f a) := by
  simp only [settled_iff, ne_eq, Outcome.mapM_eq_error_iff]
  constructor
  · rintro h a ⟨before, after, rfl, hbefore⟩ name ha
    obtain ⟨rs, hrs⟩ := Outcome.exists_mapM_eq_ok_iff.2 hbefore
    exact h name ⟨before, a, after, rfl, ⟨rs, Outcome.mapM_eq_ok_iff.1 hrs⟩, ha⟩
  · rintro h name ⟨before, a, after, rfl, ⟨rs, hrs⟩, ha⟩
    have hbefore := Outcome.exists_mapM_eq_ok_iff.1 ⟨rs, Outcome.mapM_eq_ok_iff.2 hrs⟩
    exact h a ⟨before, after, rfl, hbefore⟩ name ha

theorem mapM_congr_of_settled (h : Settled (l.mapM f)) (hfg : ∀ a, Settled (f a) → g a = f a) :
    l.mapM g = l.mapM f := by
  induction l with
  | nil => rfl
  | cons a l ih =>
    rw [Outcome.mapM_cons] at h
    rw [Outcome.mapM_cons, Outcome.mapM_cons]
    obtain ⟨ha, hl⟩ := settled_bind_iff.1 h
    rw [hfg a ha]
    cases hfa : f a with
    | error e => rfl
    | ok b => rw [ih (settled_map_iff.1 (hl b hfa))]

end

theorem settled_result_bind {x : ExceptT CompileError Id α} {f : α → ExceptT CompileError Id β}
    (hx : Settled (result x)) (hf : ∀ a, Settled (result (f a))) : Settled (result (x >>= f)) := by
  rw [result_bind]
  exact settled_bind_iff.2 ⟨hx, fun a _ => hf a⟩

theorem settled_result_ofExcept {x : Except CompileError α} (hx : Settled x) :
    Settled (result (ofExcept x)) := by
  rwa [result_ofExcept]

theorem settled_result_mapM {f : α → ExceptT CompileError Id β} {l : List α}
    (h : ∀ a ∈ l, Settled (result (f a))) : Settled (result (l.mapM f)) := by
  rw [result_mapM, settled_mapM_iff]
  exact fun a ha => h a ha.mem

/-! ## Techniques -/

section

variable (c : Converter Id)

theorem settled_afterAnswer (stage : Stage) (optional : Bool) (start : Nat)
    (answer : Except CompileLog Converted) : Settled (afterAnswer stage optional start answer) := by
  rcases answer with log | t
  · rw [afterAnswer, afterFailure]
    split
    · split <;> trivial
    · trivial
  · trivial

theorem settled_convert (hlsl : String) (stage : Stage) (target : Target)
    (optional reflectOnly : Bool) (start : Nat) :
    Settled (result (convert c hlsl stage target optional reflectOnly start)) :=
  settled_afterAnswer stage optional start
    (c (Request.ofProgram hlsl stage target start reflectOnly))

theorem settled_detectStages (hlsl : String) : Settled (result (detectStages c hlsl)) := by
  refine settled_result_bind (settled_convert ..) fun x => ?_
  dsimp only
  split <;> trivial

theorem settled_convertFrom (hlsl : String) (target : Target) (stages : List Stage) (start : Nat) :
    Settled (result (convertFrom c hlsl target stages start)) := by
  induction stages generalizing start with
  | nil => exact settled_ok _
  | cons stage stages ih =>
    exact settled_result_bind (settled_convert ..) fun x =>
      settled_result_bind (ih _) fun rest => settled_ok _

theorem settled_inDialects (p : PassData) (stages : List Stage) (ds : List Dialect) :
    Settled (result (inDialects c p stages ds)) := by
  induction ds with
  | nil => exact settled_ok _
  | cons d ds ih =>
    refine settled_result_bind ?_ fun programs => settled_result_bind ih fun passes => settled_ok _
    rw [Dialect.programs]
    split
    · exact settled_ok _
    · exact settled_result_bind (settled_convertFrom ..) fun sources => settled_ok _

theorem settled_buildPasses (dialects : List Dialect) (ps : List PassData) :
    Settled (result (buildPasses c dialects ps)) := by
  induction ps with
  | nil => exact settled_ok _
  | cons p ps ih =>
    refine settled_result_bind ?_ fun row => settled_result_bind ih fun rows => settled_ok _
    rw [buildPass]
    split
    · exact settled_result_bind (settled_inDialects ..) fun passes => settled_ok _
    · exact settled_result_bind (settled_detectStages c _) fun found =>
        settled_result_bind (settled_inDialects ..) fun passes => settled_ok _

end

theorem settled_ofDeclaration (d : Document) (ds : List Declaration) (shader : Declaration) :
    Settled (PassSet.ofDeclaration d ds shader) := by
  rw [PassSet.ofDeclaration]
  split <;> trivial

/-! ## Jobs -/

theorem settled_collect {ds : List (Delivery α)} (h : ∀ d ∈ ds, Settled d.2) :
    Settled (Delivery.collect ds) :=
  settled_bind_iff.2
    ⟨settled_mapM_iff.2 fun d hd => settled_map_iff.2 (h d hd.mem), fun _ _ => settled_ok _⟩

theorem settled_runJobs (threads : Nat) {jobs : List (ExceptT CompileError Id α)}
    (h : ∀ job ∈ jobs, Settled (result job)) : Settled (result (runJobs threads jobs)) := by
  rw [runJobs]
  split
  · exact settled_result_mapM h
  -- Run at the same time, no job stops another, and one of their own errors is reported.
  · show Settled (Delivery.collect ((jobs.mapM ExceptT.run).run.mapIdx fun i r => (i, r)))
    rw [List.idRun_mapM]
    refine settled_collect fun d hd => ?_
    obtain ⟨i, hi, rfl⟩ := List.mem_mapIdx.1 hd
    rw [List.getElem_map]
    exact h _ (List.getElem_mem _)

section

variable (c : Compiler Id)

theorem settled_buildShaders (d : Document) (ds : List Declaration) (v : Variation)
    (shaders : List Declaration) : Settled (result (buildShaders c d ds v shaders)) := by
  induction shaders with
  | nil => exact settled_ok _
  | cons shader shaders ih =>
    refine settled_result_bind (settled_result_ofExcept (settled_ofDeclaration ..)) fun set => ?_
    refine settled_result_bind ?_ fun built => settled_result_bind ih fun others => settled_ok _
    exact settled_result_bind (settled_buildPasses ..) fun rows => settled_ok _

theorem Job.settled_run (source : String) (defines : Table String) (j : Job) :
    Settled (result (j.run c source defines)) := by
  refine settled_result_bind (settled_result_ofExcept (settled_mapError nofun)) fun d => ?_
  exact settled_result_bind (settled_buildShaders ..) fun built => settled_ok _

/-! ## Shaders without their sub-shaders -/

theorem Params.settled_registerReflections (strict : Bool) (p : Params) (rs : List Reflection) :
    Settled (registerReflections strict p rs) := by
  have hregisters := registersAll_of_reflections strict p rs
  generalize registerReflections strict p rs = r at hregisters
  cases hregisters with
  | met => trivial
  | clash hstrict h =>
    obtain ⟨before, x, after, -, -, ⟨-⟩⟩ := h
    trivial

theorem settled_verify (v : Verifier) (techniques : List Technique) :
    Settled (verify v techniques) := by
  rw [verify]
  split <;> trivial

theorem Compiler.settled_compileOwn (name source : String) (defines : Table String) :
    Settled (result (c.compileOwn name source defines)) := by
  refine settled_result_bind (settled_result_ofExcept (settled_mapError nofun)) fun d => ?_
  refine settled_result_bind (settled_result_ofExcept (settled_mapError nofun)) fun populated => ?_
  have hjobs : ∀ job ∈ (Job.all populated).map (·.run c source defines), Settled (result job) := by
    intro job hjob
    obtain ⟨j, -, rfl⟩ := List.mem_map.1 hjob
    exact j.settled_run ..
  refine settled_result_bind (settled_runJobs _ hjobs) fun outputs => ?_
  have hassemble : Settled (Shader.assemble c.config.strict name (Catalog.ofDocument d) populated
      outputs) :=
    settled_bind_iff.2 ⟨Params.settled_registerReflections .., fun params _ => settled_ok _⟩
  refine settled_result_bind (settled_result_ofExcept hassemble) fun shader => ?_
  dsimp only
  split
  · exact settled_result_bind (settled_result_ofExcept (settled_verify ..)) fun _ => settled_ok _
  · exact settled_ok _

end
end ShaderLang
