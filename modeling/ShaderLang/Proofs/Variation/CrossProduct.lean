import Mathlib.Data.List.Perm.Basic
import Mathlib.Data.List.ProdSigma
import ShaderLang.Proofs.Table
import ShaderLang.Variation
/-!
# Expansion is the cross product

A list of parameters stands for the ways to choose for each of them. Expansion grows its list from
the last parameter to the first and changes the combinations that it has while it appends others.
What comes out is, up to order, the plain cross product of the choices, taken from the first
parameter on.

## Main definitions

* `VariationParam.choices` — what a parameter can be set to, or not be set at all
* `Variation.product` — the cross product by recursion on the parameters
* `Variation.Assigns` — a combination makes a choice for each parameter and mentions nothing else

## Main results

* `Variation.expand_perm` — expansion gives the cross product in another order
* `Variation.mem_product_iff`, `Variation.nodup_product` — the cross product holds every assignment
  of distinct parameters, and holds it once
* `Variation.expand_is_product` — so does expansion, and its length is the product of the choices
-/

namespace ShaderLang

/-- What a parameter can be set to, or not be set at all. -/
def VariationParam.choices (p : VariationParam) : List (Option Int) :=
  if p.values.isEmpty then [some 1, none] else p.values.map (some ·.value)

/-- The number of choices of a parameter. -/
def VariationParam.choiceCount (p : VariationParam) : Nat :=
  if p.values.isEmpty then 2 else p.values.length

theorem VariationParam.length_choices (p : VariationParam) : p.choices.length = p.choiceCount := by
  rw [choices, choiceCount]
  split
  · rfl
  · exact List.length_map _

theorem VariationParam.nodup_choices {p : VariationParam} (h : (p.values.map (·.value)).Nodup) :
    p.choices.Nodup := by
  rw [choices]
  split
  · decide
  · have hmap : p.values.map (some ·.value) = (p.values.map (·.value)).map some :=
      (List.map_map ..).symm
    rw [hmap]
    exact h.map (Option.some_injective Int)

namespace Variation

/-- A combination with one more choice. -/
def choose (v : Variation) (name : String) : Option Int → Variation
  | some n => v.insert name n
  | none => v

/-- All combinations, from the first parameter to the last. -/
def product : List VariationParam → List Variation
  | [] => [.empty]
  | p :: ps => (product ps ×ˢ p.choices).map fun c => c.1.choose p.identifier c.2

/-- A combination makes a choice for each of its parameters: a boolean one is not set, or set to
one, and any other is set to one of its values. No other name is mentioned. -/
structure Assigns (params : List VariationParam) (v : Variation) : Prop where
  boolean : ∀ p ∈ params, p.values = [] →
    v.get? p.identifier = none ∨ v.get? p.identifier = some 1
  enumerated : ∀ p ∈ params, p.values ≠ [] →
    ∃ choice ∈ p.values, v.get? p.identifier = some choice.value
  mentioned : ∀ name, v.get? name ≠ none → ∃ p ∈ params, p.identifier = name

variable {params ps : List VariationParam} {p : VariationParam} {u v : Variation} {name : String}
  {choice : Option Int}

/-! ## Order -/

/-- The combinations with the choices of a further parameter, each with all of its choices in a
row. -/
theorem multiply_perm (vs : List Variation) (p : VariationParam) :
    (multiply vs p).Perm ((vs ×ˢ p.choices).map fun c => c.1.choose p.identifier c.2) := by
  have hproduct : (vs ×ˢ p.choices).map (fun c => c.1.choose p.identifier c.2) =
      vs.flatMap fun v => p.choices.map (v.choose p.identifier) := by
    simp only [SProd.sprod, List.product, List.map_flatMap, List.map_map, Function.comp_def]
  rw [hproduct, multiply, VariationParam.choices]
  cases p.values with
  | nil => simpa [choose] using List.map_append_flatMap_perm vs (·.insert p.identifier 1) ([·])
  | cons first others =>
    simpa [choose, Function.comp_def] using List.map_append_flatMap_perm vs
      (·.insert p.identifier first.value)
      fun v => others.map fun other => v.insert p.identifier other.value

/-- The list starts as if the combination that sets nothing had been there before. -/
theorem first_perm (p : VariationParam) : (first p).Perm (multiply [.empty] p) := by
  rw [first, multiply]
  cases p.values with
  | nil => exact .swap _ _ []
  | cons choice others => simp

theorem multiply_perm_of_perm {vs ws : List Variation} (h : vs.Perm ws) (p : VariationParam) :
    (multiply vs p).Perm (multiply ws p) :=
  (multiply_perm vs p).trans (((h.product_right _).map _).trans (multiply_perm ws p).symm)

theorem foldl_multiply_perm {vs ws : List Variation} (h : vs.Perm ws) (ps : List VariationParam) :
    (ps.foldl multiply vs).Perm (ps.foldl multiply ws) := by
  induction ps generalizing vs ws with
  | nil => exact h
  | cons p ps ih => exact ih (multiply_perm_of_perm h p)

/-- Expansion gives the cross product in another order. -/
theorem expand_perm (params : List VariationParam) : (expand params).Perm (product params) := by
  -- With the combination that sets nothing in front, expansion is one fold over the parameters.
  have hfold : (expand params).Perm (params.foldr (fun p vs => multiply vs p) [.empty]) := by
    rw [← List.foldl_reverse, expand]
    cases params.reverse with
    | nil => exact .refl _
    | cons p ps => exact foldl_multiply_perm (first_perm p) ps
  refine hfold.trans ?_
  clear hfold
  induction params with
  | nil => exact .refl _
  | cons p ps ih => exact (multiply_perm_of_perm ih p).trans (multiply_perm (product ps) p)

/-! ## The cross product of distinct parameters -/

theorem get?_choose (h : v.get? name = none) (choice : Option Int) (other : String) :
    (v.choose name choice).get? other = if name = other then choice else v.get? other := by
  cases choice with
  | some n => exact Table.get?_insert v name other n
  | none =>
    rw [choose]
    split
    · next heq => rw [← heq, h]
    · rfl

/-- A combination without a name, with the choice that was made for it put back. -/
theorem choose_erase (v : Variation) (name : String) :
    Variation.choose (v.erase name) name (v.get? name) = v := by
  refine Table.ext_get? fun other => ?_
  rw [get?_choose (by simp), Table.get?_erase]
  split
  · next heq => rw [heq]
  · rfl

theorem erase_choose (h : v.get? name = none) (choice : Option Int) :
    Table.erase (v.choose name choice) name = v := by
  refine Table.ext_get? fun other => ?_
  rw [Table.get?_erase, get?_choose h]
  split
  · next heq => rw [← heq, h]
  · rfl

theorem assigns_nil_iff : Assigns [] v ↔ v = .empty := by
  constructor
  · intro h
    refine Table.ext_get? fun name => ?_
    by_contra hne
    obtain ⟨p, hp, -⟩ := h.mentioned name hne
    cases hp
  · rintro rfl
    exact ⟨by simp, by simp, by simp⟩

theorem mem_choices_iff : choice ∈ p.choices ↔
    (p.values = [] → choice = none ∨ choice = some 1) ∧
      (p.values ≠ [] → ∃ x ∈ p.values, choice = some x.value) := by
  rw [VariationParam.choices]
  cases p.values with
  | nil => simp [or_comm]
  | cons x xs => simp [eq_comm]

/-- The choice of the first parameter and those of the others are made independently, since none
of the others has its name. -/
theorem assigns_cons_iff (h : p.identifier ∉ ps.map (·.identifier)) :
    Assigns (p :: ps) v ↔
      v.get? p.identifier ∈ p.choices ∧ Assigns ps (Table.erase v p.identifier) := by
  -- The others have names of their own, so that they do not see the value taken out.
  have hother : ∀ q ∈ ps, (Table.erase v p.identifier).get? q.identifier = v.get? q.identifier := by
    intro q hq
    have hne : p.identifier ≠ q.identifier := fun heq => h (heq ▸ List.mem_map_of_mem hq)
    rw [Table.get?_erase, if_neg hne]
  rw [mem_choices_iff]
  constructor
  · intro ha
    refine ⟨⟨ha.boolean p List.mem_cons_self, ha.enumerated p List.mem_cons_self⟩, ?_, ?_, ?_⟩
    · intro q hq
      rw [hother q hq]
      exact ha.boolean q (List.mem_cons_of_mem p hq)
    · intro q hq
      rw [hother q hq]
      exact ha.enumerated q (List.mem_cons_of_mem p hq)
    · intro name hname
      rw [Table.get?_erase] at hname
      split at hname
      · exact absurd rfl hname
      · next hne =>
        obtain ⟨q, hq, rfl⟩ := ha.mentioned name hname
        exact ⟨q, (List.mem_cons.1 hq).resolve_left fun heq => hne (by rw [heq]), rfl⟩
  · rintro ⟨⟨hboolean, henumerated⟩, ha⟩
    refine ⟨fun q hq => ?_, fun q hq => ?_, fun name hname => ?_⟩
    · rcases List.mem_cons.1 hq with rfl | hq
      · exact hboolean
      · exact hother q hq ▸ ha.boolean q hq
    · rcases List.mem_cons.1 hq with rfl | hq
      · exact henumerated
      · exact hother q hq ▸ ha.enumerated q hq
    · by_cases heq : p.identifier = name
      · exact ⟨p, List.mem_cons_self, heq⟩
      · obtain ⟨q, hq, hqname⟩ := ha.mentioned name (by rwa [Table.get?_erase, if_neg heq])
        exact ⟨q, List.mem_cons_of_mem p hq, hqname⟩

/-- An assignment of other parameters leaves a name open. -/
theorem Assigns.get?_eq_none (ha : Assigns ps v) (h : name ∉ ps.map (·.identifier)) :
    v.get? name = none := by
  by_contra hne
  obtain ⟨p, hp, rfl⟩ := ha.mentioned name hne
  exact h (List.mem_map_of_mem hp)

/-- The cross product of distinct parameters holds their assignments. -/
theorem mem_product_iff (h : (params.map (·.identifier)).Nodup) :
    v ∈ product params ↔ Assigns params v := by
  induction params generalizing v with
  | nil => rw [product, List.mem_singleton, assigns_nil_iff]
  | cons p ps ih =>
    obtain ⟨hnot, hps⟩ := List.nodup_cons.1 h
    rw [product, List.mem_map, assigns_cons_iff hnot]
    constructor
    · rintro ⟨⟨u, choice⟩, hmem, rfl⟩
      obtain ⟨hu, hchoice⟩ := List.mem_product.1 hmem
      have hnone := ((ih hps).1 hu).get?_eq_none hnot
      dsimp only
      rw [get?_choose hnone, if_pos rfl, erase_choose hnone]
      exact ⟨hchoice, (ih hps).1 hu⟩
    · rintro ⟨hchoice, ha⟩
      exact ⟨(Table.erase v p.identifier, v.get? p.identifier),
        List.mem_product.2 ⟨(ih hps).2 ha, hchoice⟩, choose_erase v p.identifier⟩

/-- The cross product of distinct parameters with distinct values has no repetition. -/
theorem nodup_product (h : (params.map (·.identifier)).Nodup)
    (hvalues : ∀ p ∈ params, (p.values.map (·.value)).Nodup) : (product params).Nodup := by
  induction params with
  | nil => exact List.nodup_singleton _
  | cons p ps ih =>
    obtain ⟨hnot, hps⟩ := List.nodup_cons.1 h
    have hchoices := VariationParam.nodup_choices (hvalues p List.mem_cons_self)
    have hrest := ih hps fun q hq => hvalues q (List.mem_cons_of_mem p hq)
    have hopen : ∀ c ∈ product ps ×ˢ p.choices, c.1.get? p.identifier = none := fun c hc =>
      ((mem_product_iff hps).1 (List.mem_product.1 hc).1).get?_eq_none hnot
    -- What was chosen, and what it was chosen in, can be read off the combination.
    refine (hrest.product hchoices).map_on fun c hc c' hc' heq => ?_
    have hbefore := congrArg (Table.erase · p.identifier) heq
    have hchoice := congrArg (Table.get? · p.identifier) heq
    simp only [erase_choose (hopen c hc), erase_choose (hopen c' hc')] at hbefore
    simp only [get?_choose (hopen c hc), get?_choose (hopen c' hc'), if_true] at hchoice
    exact Prod.ext hbefore hchoice

theorem length_product (params : List VariationParam) :
    (product params).length = (params.map (·.choiceCount)).foldr (· * ·) 1 := by
  induction params with
  | nil => rfl
  | cons p ps ih =>
    rw [product, List.length_map, List.length_product, VariationParam.length_choices, ih,
      List.map_cons, List.foldr_cons, Nat.mul_comm]

theorem nodup_expand (h : (params.map (·.identifier)).Nodup)
    (hvalues : ∀ p ∈ params, (p.values.map (·.value)).Nodup) : (expand params).Nodup :=
  (expand_perm params).nodup_iff.2 (nodup_product h hvalues)

/-- Parameters with distinct names and distinct values are expanded to their assignments, each
once, and there are as many as the product of the numbers of their choices. -/
theorem expand_is_product (params : List VariationParam)
    (hparams : (params.map (·.identifier)).Nodup)
    (hvalues : ∀ p ∈ params, (p.values.map (·.value)).Nodup) :
    (expand params).Nodup ∧ (∀ v, v ∈ expand params ↔ Assigns params v) ∧
      (expand params).length = (params.map (·.choiceCount)).foldr (· * ·) 1 := by
  refine ⟨nodup_expand hparams hvalues, fun v => ?_, ?_⟩
  · rw [(expand_perm params).mem_iff, mem_product_iff hparams]
  · rw [(expand_perm params).length_eq, length_product]

theorem expand_is_product_mixed :
    ∃ params : List VariationParam,
      params = [⟨"A", "", true, []⟩, ⟨"B", "", true, [⟨"", 0⟩, ⟨"", 1⟩, ⟨"", 2⟩]⟩,
        ⟨"C", "", true, [⟨"", 7⟩]⟩] ∧
      (params.map (·.identifier)).Nodup ∧ (∀ p ∈ params, (p.values.map (·.value)).Nodup) ∧
      (expand params).Nodup ∧ (∀ v, v ∈ expand params ↔ Assigns params v) ∧
      (expand params).length = 6 := by
  refine ⟨_, rfl, by decide, by decide, ?_⟩
  exact expand_is_product [⟨"A", "", true, []⟩, ⟨"B", "", true, [⟨"", 0⟩, ⟨"", 1⟩, ⟨"", 2⟩]⟩,
    ⟨"C", "", true, [⟨"", 7⟩]⟩] (by decide) (by decide)

end Variation
end ShaderLang
