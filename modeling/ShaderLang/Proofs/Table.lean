import Mathlib.Data.List.Sort
import ShaderLang.Table
/-!
# Tables as partial functions

A table is known by the values of its names. An entry can be taken out of it, and every table is
what is left when one name is taken out, with that name put back.

## Main definitions

* `Table.erase` — a table without a name
* `Table.KeptIn` — every entry of a table is an entry of another one

## Main results

* `Table.get?_eq_some_iff` — the values of a table are those of its entries
* `Table.ext_get?` — tables that give every name the same value are equal
* `Table.get?_erase` — taking out a name changes the value of no other
-/

namespace ShaderLang
namespace Table

variable {α : Type} {t u : Table α} {name other : String} {value : α}

theorem find?_eq_some_iff {es : List (String × α)} (h : es.Pairwise (fun a b => a.1 < b.1)) :
    find? name es = some value ↔ (name, value) ∈ es := by
  induction es with
  | nil => simp [find?]
  | cons e es ih =>
    obtain ⟨hlt, hes⟩ := List.pairwise_cons.1 h
    rw [find?, List.mem_cons]
    by_cases heq : e.1 = name
    · -- The names behind are greater, so that the name is not found there again.
      have hnot : (name, value) ∉ es := fun hmem => by
        have hself := hlt _ hmem
        rw [heq] at hself
        exact String.lt_irrefl _ hself
      rw [if_pos heq, Option.some.injEq]
      constructor
      · rintro rfl
        exact .inl (Prod.ext heq.symm rfl)
      · rintro (rfl | hmem)
        · rfl
        · exact absurd hmem hnot
    · rw [if_neg heq, ih hes]
      constructor
      · exact .inr
      · rintro (rfl | hmem)
        · exact absurd rfl heq
        · exact hmem

/-- The values of a table are those of its entries. -/
theorem get?_eq_some_iff : t.get? name = some value ↔ (name, value) ∈ t.entries :=
  find?_eq_some_iff t.ascending

/-- Tables that give every name the same value are equal. -/
theorem ext_get? (h : ∀ name, t.get? name = u.get? name) : t = u := by
  have hirrefl : Std.Irrefl fun a b : String × α => a.1 < b.1 := ⟨fun e => String.lt_irrefl e.1⟩
  have hantisymm : Std.Antisymm fun a b : String × α => a.1 < b.1 :=
    ⟨fun a b hab hba => absurd (String.lt_trans hab hba) (String.lt_irrefl a.1)⟩
  refine ext (t.ascending.eq_of_mem_iff u.ascending fun e => ?_)
  rw [← get?_eq_some_iff, ← get?_eq_some_iff, h]

/-- A table without the entry of a name. -/
def erase (t : Table α) (name : String) : Table α :=
  ⟨t.entries.filter (·.1 ≠ name), t.ascending.filter _⟩

@[simp] theorem get?_erase (t : Table α) (name other : String) :
    (t.erase name).get? other = if name = other then none else t.get? other := by
  refine Option.ext fun value => ?_
  rw [get?_eq_some_iff, erase, List.mem_filter, ← get?_eq_some_iff]
  by_cases h : name = other
  · simp [h]
  · simp [h, Ne.symm h]

/-- Every entry of a table is an entry of the other one. -/
def KeptIn (t u : Table α) : Prop :=
  ∀ name value, t.get? name = some value → u.get? name = some value

theorem KeptIn.refl (t : Table α) : t.KeptIn t := fun _ _ h => h

theorem KeptIn.trans {v : Table α} (h : t.KeptIn u) (h' : u.KeptIn v) : t.KeptIn v :=
  fun name value ht => h' name value (h name value ht)

/-- A new name leaves the others as they are. -/
theorem keptIn_insert (h : t.get? name = none) : t.KeptIn (t.insert name value) := by
  intro other first hother
  have hne : name ≠ other := by
    rintro rfl
    rw [h] at hother
    cases hother
  rw [get?_insert, if_neg hne, hother]

end Table
end ShaderLang
