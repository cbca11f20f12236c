import ShaderLang.Proofs.Text.Replace
/-!
# Repetitions that go as far as they can

A repetition of characters tries to go on before it tries to end. So it passes over all characters
of its class, if what follows it goes on from their end; and what cannot start at a point is left
out there.

## Main results

* `Pattern.first?_run_of_spans` — the first way through a repetition passes over its whole class
* `Pattern.first?_opt_of_head` — what may be left out is, where it cannot start
* `Pattern.replaceFrom_of_not_startsBy` — characters that start no match stay
-/

namespace ShaderLang.Pattern

variable {p : Char → Bool} {a b : Pattern} {c d : Cursor} {u : List Char} {x : Char}
  {xs : List Char} {go : Cursor → Option Found} {f : Found}

/-! ## First ways -/

/-- A repetition of characters tries one more of them before it tries to end. -/
theorem first?_run_of_cons (hc : c.rest = x :: xs) :
    (run p).first? c go = (if p x then (run p).first? (c.past x xs) go else none).or (go c) := by
  rw [run, first?, repeatThen]
  simp [first?, hc, prefer, Cursor.past]

theorem first?_run_of_nil (hc : c.rest = []) : (run p).first? c go = go c := by
  rw [run, first?, repeatThen]
  simp [first?, hc, prefer]

/-- A repetition of characters ends where its class does, if what follows it goes on from there. -/
theorem first?_run_of_spans (hspan : c.Spans u d) (hu : ∀ x ∈ u, p x = true)
    (hd : ∀ x ∈ d.rest.head?, p x = false) (hgo : go d = some f) :
    (run p).first? c go = some f := by
  induction u generalizing c with
  | nil =>
    obtain rfl : d = c := hspan
    cases hrest : d.rest with
    | nil => rw [first?_run_of_nil hrest, hgo]
    | cons x xs =>
      have hx : p x = false := hd x (by rw [hrest]; rfl)
      rw [first?_run_of_cons hrest, hx, hgo]
      rfl
  | cons x u ih =>
    obtain ⟨xs, hc, hspan⟩ := hspan
    obtain ⟨hx, hu⟩ := List.forall_mem_cons.1 hu
    rw [first?_run_of_cons hc, if_pos hx, ih hspan hu]
    rfl

/-- At least one character of a class, and as many as there are. -/
theorem first?_run1_of_spans (hspan : c.Spans u d) (hne : u ≠ []) (hu : ∀ x ∈ u, p x = true)
    (hd : ∀ x ∈ d.rest.head?, p x = false) (hgo : go d = some f) :
    (run1 p).first? c go = some f := by
  obtain ⟨x, v, rfl⟩ := List.exists_cons_of_ne_nil hne
  obtain ⟨xs, hc, hspan⟩ := hspan
  obtain ⟨hx, hv⟩ := List.forall_mem_cons.1 hu
  rw [run1, first?, first?]
  simp only [hc, hx, if_true]
  exact first?_run_of_spans hspan hv hd hgo

/-- There is no way through a pattern that uses text and cannot start. -/
theorem first?_eq_none (ha : a.nullable = false) (hc : ∀ x ∈ c.rest.head?, a.startsBy x = false) :
    a.first? c go = none := by
  rw [Option.eq_none_iff_forall_ne_some]
  intro f hf
  obtain ⟨ms, d, g, hway, -, -⟩ := exists_way_of_first? hf
  rcases hway.startsBy with ⟨-, hnull⟩ | ⟨x, xs, hrest, hstart⟩
  · cases ha.symm.trans hnull
  · cases (hc x (by rw [hrest]; rfl)).symm.trans hstart

/-- What may be left out is left out where it cannot start. -/
theorem first?_opt_of_head (ha : a.nullable = false)
    (hc : ∀ x ∈ c.rest.head?, a.startsBy x = false) : (opt a).first? c go = go c := by
  rw [opt, first?, first?_eq_none ha hc]
  rfl

/-- What may be left out is not, if it leads on. -/
theorem first?_opt_of_some (h : a.first? c go = some f) : (opt a).first? c go = some f := by
  rw [opt, first?, h]
  rfl

/-! ## Matches and texts from a point on -/

theorem matchesFrom_of_nil (hc : c.rest = []) : a.matchesFrom c = [] := by
  rw [matchesFrom, scan_of_nil hc, List.filterMap_nil]

theorem matchesFrom_of_at? (h : a.at? c = some f) (hlt : c.offset < f.stop.offset) :
    a.matchesFrom c = ⟨f, c⟩ :: a.matchesFrom f.stop := by
  rw [matchesFrom, scan_of_at? h hlt]
  rfl

theorem matchesFrom_of_not_startsBy (ha : a.startsBy x = false) (hc : c.rest = x :: xs) :
    a.matchesFrom c = a.matchesFrom (c.past x xs) := by
  rw [matchesFrom, scan_of_not_startsBy ha hc]
  rfl

/-- Characters that start no match stay. -/
theorem replaceFrom_of_not_startsBy {out : Match → List Char} (hspan : c.Spans u d)
    (hu : ∀ x ∈ u, a.startsBy x = false) :
    a.replaceFrom out c = u ++ a.replaceFrom out d := by
  induction u generalizing c with
  | nil =>
    cases hspan
    rfl
  | cons x u ih =>
    obtain ⟨xs, hc, hspan⟩ := hspan
    obtain ⟨hx, hu⟩ := List.forall_mem_cons.1 hu
    rw [replaceFrom, scan_of_not_startsBy hx hc, List.flatMap_cons, ← replaceFrom, ih hspan hu]
    rfl

end ShaderLang.Pattern
