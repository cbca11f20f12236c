import Mathlib.Data.List.Induction
import Mathlib.Data.List.Nodup
import ShaderLang.Source.Operation
/-!
# Histories of defines

The defines are changed one by one: a name gets an expression, or it is removed. What they come to
can be told from the whole history. The names are those that were defined and not removed since,
each once; they stand in the order in which they came up, where a name that was removed comes up
anew; and each has the expression that it was given last.

## Main definitions

* `Defines.after` — the defines after operations
* `Defines.InUse`, `Defines.Up`, `Defines.Given` — whether a name is defined, since when, as what
* `Defines.Tells` — the history tells what the defines are

## Main results

* `Defines.tells_after` — every history tells what the defines after it are
-/

namespace ShaderLang
namespace Defines

/-- The defines after operations, where none were before. -/
def after (ops : List Operation) : Defines := ops.foldl operate []

/-- The operation at this position is such a one, and none that ends its effect came later. -/
structure Stands (starts ends : Operation → Prop) (ops : List Operation) (i : Nat) : Prop where
  start : ∃ op, ops[i]? = some op ∧ starts op
  lasts : ∀ k op, i < k → ops[k]? = some op → ¬ ends op

/-- The operation gives the name an expression. -/
def Sets (name : String) (op : Operation) : Prop := ∃ expr, op = .define name expr

/-- The name was given an expression by the operation at this position, and not removed since. -/
def Keeps (ops : List Operation) (name : String) (i : Nat) : Prop :=
  Stands (Sets name) (· = .undefine name) ops i

/-- The name was given an expression and not removed since. -/
def InUse (ops : List Operation) (name : String) : Prop := ∃ i, Keeps ops name i

/-- The name came up with the operation at this position: it is the first that gives the name an
expression since the name was last removed. -/
def Up (ops : List Operation) (name : String) (i : Nat) : Prop :=
  Keeps ops name i ∧ ¬ InUse (ops.take i) name

/-- The name was given this expression, and neither another one since nor removed. -/
def Given (ops : List Operation) (name : String) (expr : Option String) : Prop :=
  ∃ i, Stands (· = .define name expr) (fun op => Sets name op ∨ op = .undefine name) ops i

/-- The history tells what the defines are. -/
structure Tells (ops : List Operation) (ds : Defines) : Prop where
  nodup : (ds.map Define.name).Nodup
  has_iff : ∀ name, ds.has name = true ↔ InUse ops name
  inOrder : ds.Pairwise fun d e => ∃ i k, Up ops d.name i ∧ Up ops e.name k ∧ i < k
  given : ∀ d ∈ ds, ∃ expr, Given ops d.name expr ∧ d.expr = normal expr

variable {ops : List Operation} {op : Operation} {name other : String} {expr : Option String}
  {ds : Defines} {i k : Nat} {starts ends : Operation → Prop}

/-! ## One more operation -/

theorem getElem?_snoc (ops : List Operation) (op : Operation) (i : Nat) :
    (ops ++ [op])[i]? = if i = ops.length then some op else ops[i]? := by
  grind

theorem Stands.lt_length (h : Stands starts ends ops i) : i < ops.length := by
  obtain ⟨op, hop, -⟩ := h.start
  exact (List.getElem?_eq_some_iff.1 hop).1

/-- An operation stands at once, and all that stand before it are ended or go on. -/
theorem stands_snoc_iff : Stands starts ends (ops ++ [op]) i ↔
    Stands starts ends ops i ∧ ¬ ends op ∨ i = ops.length ∧ starts op := by
  constructor
  · -- The new operation is the last one, so that it either stands itself or comes behind.
    rintro ⟨⟨o, ho, hstarts⟩, hlasts⟩
    rw [getElem?_snoc] at ho
    by_cases hi : i = ops.length
    · rw [if_pos hi] at ho
      cases ho
      exact .inr ⟨hi, hstarts⟩
    · rw [if_neg hi] at ho
      have hlt : i < ops.length := (List.getElem?_eq_some_iff.1 ho).1
      refine .inl ⟨⟨⟨o, ho, hstarts⟩, fun k o' hk ho' => hlasts k o' hk ?_⟩, ?_⟩
      · have hne : k ≠ ops.length := Nat.ne_of_lt (List.getElem?_eq_some_iff.1 ho').1
        rw [getElem?_snoc, if_neg hne, ho']
      · exact hlasts ops.length op hlt (by simp)
  · rintro (⟨hstands, hends⟩ | ⟨rfl, hstarts⟩)
    · obtain ⟨o, ho, hstarts⟩ := hstands.start
      refine ⟨⟨o, ?_, hstarts⟩, fun k o' hk ho' => ?_⟩
      · rw [getElem?_snoc, if_neg (Nat.ne_of_lt hstands.lt_length), ho]
      · rw [getElem?_snoc] at ho'
        split at ho'
        · cases ho'
          exact hends
        · exact hstands.lasts k o' hk ho'
    · refine ⟨⟨op, by simp, hstarts⟩, fun k o' hk ho' => ?_⟩
      have hlt := (List.getElem?_eq_some_iff.1 ho').1
      rw [List.length_append, List.length_singleton] at hlt
      omega

theorem inUse_snoc_iff : InUse (ops ++ [op]) name ↔
    InUse ops name ∧ op ≠ .undefine name ∨ Sets name op := by
  constructor
  · rintro ⟨i, hi⟩
    rcases stands_snoc_iff.1 hi with ⟨hkeeps, hends⟩ | ⟨-, hsets⟩
    · exact .inl ⟨⟨i, hkeeps⟩, hends⟩
    · exact .inr hsets
  · rintro (⟨⟨i, hi⟩, hends⟩ | hsets)
    · exact ⟨i, stands_snoc_iff.2 (.inl ⟨hi, hends⟩)⟩
    · exact ⟨ops.length, stands_snoc_iff.2 (.inr ⟨rfl, hsets⟩)⟩

theorem up_snoc_iff : Up (ops ++ [op]) name i ↔
    Up ops name i ∧ op ≠ .undefine name ∨
      i = ops.length ∧ Sets name op ∧ ¬ InUse ops name := by
  -- What stands in front of a position is the same in the longer history.
  have htake : i ≤ ops.length → (ops ++ [op]).take i = ops.take i := List.take_append_of_le_length
  constructor
  · rintro ⟨hkeeps, hnew⟩
    rcases stands_snoc_iff.1 hkeeps with ⟨hbefore, hends⟩ | ⟨rfl, hsets⟩
    · rw [htake (Nat.le_of_lt hbefore.lt_length)] at hnew
      exact .inl ⟨⟨hbefore, hnew⟩, hends⟩
    · rw [htake (Nat.le_refl _), List.take_length] at hnew
      exact .inr ⟨rfl, hsets, hnew⟩
  · rintro (⟨⟨hkeeps, hnew⟩, hends⟩ | ⟨rfl, hsets, hnew⟩)
    · refine ⟨stands_snoc_iff.2 (.inl ⟨hkeeps, hends⟩), ?_⟩
      rwa [htake (Nat.le_of_lt hkeeps.lt_length)]
    · refine ⟨stands_snoc_iff.2 (.inr ⟨rfl, hsets⟩), ?_⟩
      rwa [htake (Nat.le_refl _), List.take_length]

theorem given_snoc_iff : Given (ops ++ [op]) name expr ↔
    Given ops name expr ∧ ¬ Sets name op ∧ op ≠ .undefine name ∨ op = .define name expr := by
  constructor
  · rintro ⟨i, hi⟩
    rcases stands_snoc_iff.1 hi with ⟨hstands, hends⟩ | ⟨-, hop⟩
    · exact .inl ⟨⟨i, hstands⟩, not_or.1 hends⟩
    · exact .inr hop
  · rintro (⟨⟨i, hi⟩, hends⟩ | hop)
    · exact ⟨i, stands_snoc_iff.2 (.inl ⟨hi, not_or.2 hends⟩)⟩
    · exact ⟨ops.length, stands_snoc_iff.2 (.inr ⟨rfl, hop⟩)⟩

theorem Up.snoc (h : Up ops name i) (hop : op ≠ .undefine name) : Up (ops ++ [op]) name i :=
  up_snoc_iff.2 (.inl ⟨h, hop⟩)

theorem Given.snoc_define (h : Given ops other expr) (hne : other ≠ name)
    (expr' : Option String) : Given (ops ++ [.define name expr']) other expr := by
  refine given_snoc_iff.2 (.inl ⟨h, ?_, nofun⟩)
  rintro ⟨e, he⟩
  cases he
  exact hne rfl

/-- A name in use came up once. -/
theorem exists_up_of_inUse (h : InUse ops name) : ∃ i, Up ops name i := by
  induction ops using List.reverseRecOn with
  | nil =>
    obtain ⟨i, hi⟩ := h
    exact absurd hi.lt_length (Nat.not_lt_zero i)
  | append_singleton ops op ih =>
    by_cases hbefore : InUse ops name ∧ op ≠ .undefine name
    · -- The name was in use and stays so, and it came up then.
      obtain ⟨i, hi⟩ := ih hbefore.1
      exact ⟨i, hi.snoc hbefore.2⟩
    · -- The name was not in use, so that this operation brings it up.
      have hsets : Sets name op := (inUse_snoc_iff.1 h).resolve_left hbefore
      have hundef : op ≠ .undefine name := by
        obtain ⟨expr, rfl⟩ := hsets
        exact nofun
      have hnew : ¬ InUse ops name := fun huse => hbefore ⟨huse, hundef⟩
      exact ⟨ops.length, up_snoc_iff.2 (.inr ⟨rfl, hsets, hnew⟩)⟩

/-! ## The history tells what the defines are -/

theorem has_iff_mem : ds.has name = true ↔ name ∈ ds.map Define.name := by
  simp [has]

theorem Tells.exists_up (h : Tells ops ds) {d : Define} (hd : d ∈ ds) :
    ∃ i, Up ops d.name i :=
  exists_up_of_inUse ((h.has_iff _).1 (has_iff_mem.2 (List.mem_map_of_mem hd)))

theorem Tells.has_define_iff (h : Tells ops ds) : (ds.define name expr).has other = true ↔
    InUse (ops ++ [.define name expr]) other := by
  have hsets : Sets other (.define name expr) ↔ other = name := by simp [Sets, eq_comm]
  rw [has_define, inUse_snoc_iff, hsets, ← h.has_iff]
  simp

/-- Another expression for a name that is defined. -/
theorem Tells.redefine (h : Tells ops ds) (hhas : ds.has name = true) :
    Tells (ops ++ [.define name expr]) (ds.define name expr) := by
  have hdefine : ds.define name expr =
      ds.map fun d => if d.name = name then { d with expr := normal expr } else d := if_pos hhas
  have hname : ∀ d : Define,
      (if d.name = name then { d with expr := normal expr } else d).name = d.name := by grind
  -- The names and their positions stay, and one expression is another.
  refine ⟨?_, fun other => h.has_define_iff, ?_, ?_⟩
  · rw [hdefine, List.map_map]
    simpa only [Function.comp_def, hname] using h.nodup
  · rw [hdefine, List.pairwise_map]
    simp only [hname]
    refine h.inOrder.imp ?_
    rintro d e ⟨i, k, hi, hk, hlt⟩
    exact ⟨i, k, hi.snoc nofun, hk.snoc nofun, hlt⟩
  · rw [hdefine]
    intro e he
    obtain ⟨d, hd, rfl⟩ := List.mem_map.1 he
    rw [hname]
    by_cases hsame : d.name = name
    · rw [if_pos hsame, hsame]
      exact ⟨expr, given_snoc_iff.2 (.inr rfl), rfl⟩
    · rw [if_neg hsame]
      obtain ⟨old, hold, hexpr⟩ := h.given d hd
      exact ⟨old, hold.snoc_define hsame expr, hexpr⟩

/-- A name that was not defined comes up behind the others. -/
theorem Tells.add (h : Tells ops ds) (hnew : ds.has name = false) :
    Tells (ops ++ [.define name expr]) (ds.define name expr) := by
  have hdefine : ds.define name expr = ds ++ [⟨name, normal expr⟩] := by simp [define, hnew]
  have hne : ∀ d ∈ ds, d.name ≠ name := by
    rintro d hd rfl
    rw [has_iff_mem.2 (List.mem_map_of_mem hd)] at hnew
    cases hnew
  have hup : Up (ops ++ [.define name expr]) name ops.length := by
    refine up_snoc_iff.2 (.inr ⟨rfl, ⟨expr, rfl⟩, ?_⟩)
    rw [← h.has_iff, hnew]
    exact Bool.false_ne_true
  refine ⟨?_, fun other => h.has_define_iff, ?_, ?_⟩
  · rw [hdefine, List.map_append, List.map_singleton, ← List.concat_eq_append]
    refine h.nodup.concat fun hmem => ?_
    obtain ⟨d, hd, hname⟩ := List.mem_map.1 hmem
    exact hne d hd hname
  · rw [hdefine, List.pairwise_append]
    refine ⟨h.inOrder.imp ?_, List.pairwise_singleton _ _, ?_⟩
    · rintro d e ⟨i, k, hi, hk, hlt⟩
      exact ⟨i, k, hi.snoc nofun, hk.snoc nofun, hlt⟩
    · -- All others came up before, at positions of the history so far.
      intro d hd e he
      obtain rfl := List.mem_singleton.1 he
      obtain ⟨i, hi⟩ := h.exists_up hd
      exact ⟨i, ops.length, hi.snoc nofun, hup, hi.1.lt_length⟩
  · rw [hdefine]
    refine List.forall_mem_append.2 ⟨fun d hd => ?_, List.forall_mem_singleton.2 ?_⟩
    · obtain ⟨old, hold, hexpr⟩ := h.given d hd
      exact ⟨old, hold.snoc_define (hne d hd) expr, hexpr⟩
    · exact ⟨expr, given_snoc_iff.2 (.inr rfl), rfl⟩

/-- A name is removed, and the others stay as they are. -/
theorem Tells.remove (h : Tells ops ds) : Tells (ops ++ [.undefine name]) (ds.undefine name) := by
  -- The operation ends nothing about the names that are left.
  have hundef : ∀ d ∈ ds.undefine name, Operation.undefine name ≠ .undefine d.name := by
    intro d hd hsame
    cases hsame
    simp [undefine] at hd
  have hsets : ∀ other, ¬ Sets other (.undefine name) := by
    rintro other ⟨e, he⟩
    cases he
  refine ⟨h.nodup.sublist (List.filter_sublist.map _), fun other => ?_, ?_, fun d hd => ?_⟩
  · rw [has_undefine, inUse_snoc_iff, ← h.has_iff]
    have hne : Operation.undefine name ≠ .undefine other ↔ other ≠ name := by simp [eq_comm]
    rw [hne, Bool.and_eq_true, bne_iff_ne, or_iff_left (hsets other)]
  · refine (h.inOrder.sublist List.filter_sublist).imp_of_mem ?_
    rintro d e hd he ⟨i, k, hi, hk, hlt⟩
    exact ⟨i, k, hi.snoc (hundef d hd), hk.snoc (hundef e he), hlt⟩
  · obtain ⟨old, hold, hexpr⟩ := h.given d (List.mem_of_mem_filter hd)
    exact ⟨old, given_snoc_iff.2 (.inl ⟨hold, hsets _, hundef d hd⟩), hexpr⟩

/-- An operation on conditionals leaves the defines as they are. -/
theorem Tells.skip (h : Tells ops ds) (hsets : ∀ name, ¬ Sets name op)
    (hundef : ∀ name, op ≠ .undefine name) : Tells (ops ++ [op]) ds := by
  refine ⟨h.nodup, fun other => ?_, h.inOrder.imp ?_, fun d hd => ?_⟩
  · rw [h.has_iff, inUse_snoc_iff]
    simp [hsets, hundef]
  · rintro d e ⟨i, k, hi, hk, hlt⟩
    exact ⟨i, k, hi.snoc (hundef _), hk.snoc (hundef _), hlt⟩
  · obtain ⟨old, hold, hexpr⟩ := h.given d hd
    exact ⟨old, given_snoc_iff.2 (.inl ⟨hold, hsets _, hundef _⟩), hexpr⟩

/-- One more operation is told as well. -/
theorem Tells.operate (h : Tells ops ds) (op : Operation) :
    Tells (ops ++ [op]) (ds.operate op) := by
  cases op with
  | define name expr =>
    cases hhas : ds.has name with
    | true => exact h.redefine hhas
    | false => exact h.add hhas
  | undefine name => exact h.remove
  | _ =>
    refine h.skip ?_ nofun
    rintro name ⟨expr, hop⟩
    cases hop

theorem tells_nil : Tells [] [] := by
  refine ⟨List.nodup_nil, fun name => ?_, .nil, nofun⟩
  have hnot : ¬ InUse [] name := fun ⟨i, hi⟩ => Nat.not_lt_zero i hi.lt_length
  simp [has, hnot]

/-- Every history tells what the defines after it are. -/
theorem tells_after (ops : List Operation) : Tells ops (after ops) := by
  induction ops using List.reverseRecOn with
  | nil => exact tells_nil
  | append_singleton ops op ih =>
    rw [after, List.foldl_append]
    exact ih.operate op

end Defines
end ShaderLang
