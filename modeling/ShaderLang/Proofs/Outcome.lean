import Mathlib.Data.List.Forall2
/-!
# Outcomes

Results that are either a value or an error, and lists of them.

## Main results

* `Outcome.mapM_eq_ok_iff`, `Outcome.mapM_eq_error_iff` — all members of a list have a value, or the
  first that has none gives the error
-/

namespace ShaderLang

/-- Related lists agree in what their members have in common. -/
theorem map_eq_map_of_forall₂ {α β γ : Type} {R : α → β → Prop} {f : α → γ} {g : β → γ} {l : List α}
    {l' : List β} (h : List.Forall₂ R l l') (hR : ∀ a b, R a b → g b = f a) :
    l'.map g = l.map f := by
  rw [← List.forall₂_eq_eq_eq, List.forall₂_map_left_iff, List.forall₂_map_right_iff]
  exact (h.imp hR).flip

namespace Outcome

variable {ε α β : Type}

theorem map_eq_ok_iff {x : Except ε α} {g : α → β} {b : β} :
    x.map g = .ok b ↔ ∃ a, x = .ok a ∧ g a = b := by
  cases x <;> simp [Except.map]

theorem map_eq_error_iff {x : Except ε α} {g : α → β} {e : ε} :
    x.map g = .error e ↔ x = .error e := by
  cases x <;> simp [Except.map]

theorem mapError_eq_ok_iff {δ : Type} {x : Except ε α} {g : ε → δ} {a : α} :
    x.mapError g = .ok a ↔ x = .ok a := by
  cases x <;> simp [Except.mapError]

theorem toOption_eq_some_iff {x : Except ε α} {a : α} : x.toOption = some a ↔ x = .ok a := by
  cases x <;> simp [Except.toOption]

/-- A value that passes a test is a value. -/
theorem exists_eq_ok_of_any {x : Except ε α} {test : α → Bool} (h : x.toOption.any test = true) :
    ∃ a, x = .ok a ∧ test a = true := by
  obtain ⟨a, ha, htest⟩ := (Option.any_eq_true _ _).1 h
  exact ⟨a, toOption_eq_some_iff.1 ha, htest⟩

variable {f : α → Except ε β}

theorem mapM_cons (a : α) (l : List α) :
    (a :: l).mapM f = (f a).bind fun b => (l.mapM f).map (b :: ·) := by
  rw [List.mapM_cons]
  cases f a with
  | error e => rfl
  | ok b => cases l.mapM f <;> rfl

theorem mapM_eq_ok_iff {l : List α} {rs : List β} :
    l.mapM f = .ok rs ↔ List.Forall₂ (fun a b => f a = .ok b) l rs := by
  induction l generalizing rs with
  | nil =>
    rw [List.forall₂_nil_left_iff, List.mapM_nil]
    exact ⟨fun h => (Except.ok.inj h).symm, fun h => h ▸ rfl⟩
  | cons a l ih =>
    rw [mapM_cons, List.forall₂_cons_left_iff]
    simp only [← ih]
    cases f a with
    | error e => simp [Except.bind]
    | ok b => cases l.mapM f <;> simp [Except.bind, Except.map, eq_comm]

/-- The error of a list is that of its head, or that of the others behind a head that has a value. -/
theorem mapM_cons_eq_error_iff {a : α} {l : List α} {e : ε} :
    (a :: l).mapM f = .error e ↔ f a = .error e ∨ (∃ b, f a = .ok b) ∧ l.mapM f = .error e := by
  rw [mapM_cons]
  cases f a with
  | error e => simp [Except.bind]
  | ok b => cases l.mapM f <;> simp [Except.bind, Except.map]

theorem exists_mapM_eq_error_iff {l : List α} :
    (∃ e, l.mapM f = .error e) ↔ ∃ a ∈ l, ∃ e, f a = .error e := by
  induction l with
  | nil =>
    constructor
    · rintro ⟨e, ⟨⟩⟩
    · rintro ⟨a, ha, -⟩
      cases ha
  | cons a l ih =>
    rw [mapM_cons, List.exists_mem_cons_iff, ← ih]
    cases f a with
    | error e => simp [Except.bind]
    | ok b => cases l.mapM f <;> simp [Except.bind, Except.map]

theorem exists_mapM_eq_ok_iff {l : List α} :
    (∃ rs, l.mapM f = .ok rs) ↔ ∀ a ∈ l, ∃ b, f a = .ok b := by
  induction l with
  | nil => exact ⟨fun _ => nofun, fun _ => ⟨[], rfl⟩⟩
  | cons a l ih =>
    rw [List.forall_mem_cons, ← ih, mapM_cons]
    cases f a with
    | error e => simp [Except.bind]
    | ok b => cases l.mapM f <;> simp [Except.bind, Except.map]

theorem mapM_eq_error_iff {l : List α} {e : ε} :
    l.mapM f = .error e ↔ ∃ before a after, l = before ++ a :: after ∧
      (∃ rs, List.Forall₂ (fun a b => f a = .ok b) before rs) ∧ f a = .error e := by
  induction l with
  | nil =>
    constructor
    · rintro ⟨⟩
    · rintro ⟨before, a, after, hl, -⟩
      exact absurd hl.symm (by simp)
  | cons a l ih =>
    rw [mapM_cons_eq_error_iff, ih]
    constructor
    · rintro (ha | ⟨⟨b, hb⟩, before, a', after, rfl, ⟨rs, hrs⟩, ha'⟩)
      · exact ⟨[], a, l, rfl, ⟨[], .nil⟩, ha⟩
      · exact ⟨a :: before, a', after, rfl, ⟨b :: rs, .cons hb hrs⟩, ha'⟩
    · rintro ⟨before, a', after, hl, ⟨rs, hrs⟩, ha'⟩
      -- The head is the one that fails just if none stands before that one.
      cases hrs with
      | nil =>
        cases hl
        exact .inl ha'
      | cons hb hrs =>
        cases hl
        exact .inr ⟨⟨_, hb⟩, _, a', after, rfl, ⟨_, hrs⟩, ha'⟩

end Outcome
end ShaderLang
